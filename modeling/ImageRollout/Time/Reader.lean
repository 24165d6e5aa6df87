import ImageRollout.Text.Blank
import ImageRollout.Time.Instant

/-!
# Reading instants

The reader takes RFC 3339 with some lenience: white space may stand before a number or a mark,
numbers may be short, the `T` may be small or a space, and the offset's colon may be left out.  An
offset is required, the calendar must have the date, and second 60 is a leap second.
-/

namespace ImageRollout.Time.Instant

/-- A number of one to `width` digits behind white space, and what follows it. -/
def number? (width : Nat) (s : List Char) : Option (Nat × List Char) :=
  let s := Text.skipBlank s
  let digits := (s.take width).takeWhile Char.isDigit
  if digits.isEmpty then none
  else some (digits.foldl (fun n c => 10 * n + (c.toNat - 48)) 0, s.drop digits.length)

/-- A year: four digits at most, or a sign and any number of digits. -/
def year? (s : List Char) : Option (Int × List Char) :=
  match Text.skipBlank s with
  | '-' :: rest => (signed? rest).map fun (n, rest) => (-(n : Int), rest)
  | '+' :: rest => (signed? rest).map fun (n, rest) => ((n : Int), rest)
  | rest => (number? 4 rest).map fun (n, rest) => ((n : Int), rest)
where
  signed? (s : List Char) : Option (Nat × List Char) :=
    match s with
    | c :: _ => if c.isDigit then number? s.length s else none
    | [] => none

/-- A mark behind white space, and what follows it. -/
def mark? (c : Char) (s : List Char) : Option (List Char) :=
  match Text.skipBlank s with
  | d :: rest => if d = c then some rest else none
  | [] => none

/-- The nanoseconds of a fraction, of which nine digits count; none is zero. -/
def fraction? (s : List Char) : Option (Nat × List Char) :=
  match s with
  | '.' :: rest =>
    let digits := rest.takeWhile Char.isDigit
    let counted := digits.take 9
    if digits.isEmpty then none
    else
      let n := (counted.rightpad 9 '0').foldl (fun n c => 10 * n + (c.toNat - 48)) 0
      some (n, rest.drop digits.length)
  | _ => some (0, s)

/-- Two digits, of which the first is at most `top`. -/
def twoDigits? (top : Nat) : List Char → Option (Nat × List Char)
  | a :: b :: rest =>
    if a.isDigit ∧ b.isDigit ∧ a.toNat - 48 ≤ top then
      some (10 * (a.toNat - 48) + (b.toNat - 48), rest)
    else none
  | _ => none

/-- The sign of an offset. -/
def sign? (c : Char) : Option Int :=
  if c = '+' then some 1 else if c = '-' ∨ c.toNat = 0x2212 then some (-1) else none

/-- An offset in seconds, and what follows it. -/
def offset? (s : List Char) : Option (Int × List Char) := do
  match s.map Char.toLower with
  | 'u' :: 't' :: 'c' :: _ => return (0, s.drop 3)
  | 'z' :: _ => return (0, s.drop 1)
  | _ => pure ()
  let c :: rest := s | none
  let sign ← sign? c
  let (hours, rest) ← twoDigits? 9 rest
  let rest := rest.dropWhile fun c => c = ':' || Text.isBlank c
  let (minutes, rest) ← twoDigits? 5 rest
  let seconds := sign * (hours * 3600 + minutes * 60)
  if seconds.natAbs < 86400 then return (seconds, rest)
  none

/-- The instant that a text gives. -/
def parse? (text : String) : Option Instant := do
  let (year, s) ← year? text.toList
  let (month, s) ← number? 2 (← mark? '-' s)
  let (day, s) ← number? 2 (← mark? '-' s)
  let c :: s := s | none
  if c ≠ 'T' ∧ c ≠ 't' ∧ c ≠ ' ' then none
  let (hour, s) ← number? 2 s
  let (minute, s) ← number? 2 (← mark? ':' s)
  let (second, s) ← number? 2 (← mark? ':' s)
  let (nanos, s) ← fraction? s
  let (offset, s) ← offset? (Text.skipBlank s)
  if (Text.skipBlank s) ≠ [] then none
  let date : Date := { year, month, day }
  if ¬ date.isValid ∨ hour > 23 ∨ minute > 59 ∨ second > 60 then none
  let leap : Nat := if second = 60 then 1 else 0
  ofUnix? (date.toDays * 86400 + hour * 3600 + minute * 60 + second - leap - offset)
    (nanos + leap * 1000000000)

end ImageRollout.Time.Instant
