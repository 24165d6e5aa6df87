import ImageRollout.Time.Calendar

/-!
# Instants

A point in time is a number of seconds since 1970-01-01T00:00:00Z and a number of nanoseconds in
that second.  A leap second is the last second of its minute running on: its nanoseconds are a
thousand million or more, so it lies behind `:59.999999999` and before the next minute.

Instants are written as RFC 3339 has them, with three, six or nine digits of fraction where they
are needed.  Years outside 0 to 9999 carry a sign.
-/

namespace ImageRollout.Time

/-- A point in time. -/
structure Instant where
  seconds : Int
  nanos : Nat
  deriving DecidableEq, Repr

namespace Instant

/-- The first and the last year that instants can lie in. -/
def yearRange : Int × Int := (-262143, 262142)

/-- The instant of a time stamp, if there is one: a leap second only ends a minute, and the year
lies in the range. -/
def ofUnix? (seconds : Int) (nanos : Nat) : Option Instant :=
  let year := (Date.ofDays (Int.fdiv seconds 86400)).year
  if 2000000000 ≤ nanos then none
  else if 1000000000 ≤ nanos ∧ seconds % 60 ≠ 59 then none
  else if year < yearRange.1 ∨ yearRange.2 < year then none
  else some { seconds, nanos }

/-- Whether one instant is earlier than another. -/
def before (a b : Instant) : Bool :=
  a.seconds < b.seconds || (a.seconds = b.seconds && a.nanos < b.nanos)

/-- A number with leading zeros up to the width. -/
def padded (width n : Nat) : String :=
  let digits := toString n
  String.ofList (List.replicate (width - digits.length) '0') ++ digits

/-- A year of four digits, or a signed one outside 0 to 9999. -/
def yearText (y : Int) : String :=
  if 0 ≤ y ∧ y ≤ 9999 then padded 4 y.toNat
  else (if y < 0 then "-" else "+") ++ padded 4 y.natAbs

/-- The fraction of a second in as few groups of three digits as hold it. -/
def fractionText (nanos : Nat) : String :=
  if nanos = 0 then ""
  else if nanos % 1000000 = 0 then "." ++ padded 3 (nanos / 1000000)
  else if nanos % 1000 = 0 then "." ++ padded 6 (nanos / 1000)
  else "." ++ padded 9 nanos

/-- The date and time of day, without an offset. -/
def localText (t : Instant) : String :=
  let days := Int.fdiv t.seconds 86400
  let date := Date.ofDays days
  let secondOfDay := (t.seconds - days * 86400).toNat
  let leap := t.nanos / 1000000000
  yearText date.year ++ "-" ++ padded 2 date.month ++ "-" ++ padded 2 date.day ++ "T" ++
    padded 2 (secondOfDay / 3600) ++ ":" ++ padded 2 (secondOfDay / 60 % 60) ++ ":" ++
    padded 2 (secondOfDay % 60 + leap) ++ fractionText (t.nanos % 1000000000)

/-- The instant with the offset of universal time. -/
def text (t : Instant) : String := t.localText ++ "+00:00"

/-- The instant with the letter of universal time. -/
def zuluText (t : Instant) : String := t.localText ++ "Z"

end Instant

end ImageRollout.Time
