import ImageRollout.Json.Basic

/-!
# Values that are kept as they are

A reader that keeps a value it does not know must hold all of it: every string must be a text,
every number must be finite as a double, and containers nest only so deep.
-/

namespace ImageRollout.Json

/-- The digits of a number's spelling without its point, and the power of ten that they count. -/
def decimalParts (spelling : List Char) : Nat × Int :=
  let body := if spelling.head? = some '-' then spelling.drop 1 else spelling
  let (mantissa, exponent) := body.span fun c => c ≠ 'e' && c ≠ 'E'
  let (whole, fraction) := mantissa.span (· ≠ '.')
  let fraction := fraction.drop 1
  let digits := (whole ++ fraction).foldl (fun n c => 10 * n + (c.toNat - 48)) 0
  let power : Int := match exponent.drop 1 with
    | '-' :: ds => -(ds.foldl (fun n c => 10 * n + (c.toNat - 48)) 0 : Nat)
    | '+' :: ds => (ds.foldl (fun n c => 10 * n + (c.toNat - 48)) 0 : Nat)
    | ds => (ds.foldl (fun n c => 10 * n + (c.toNat - 48)) 0 : Nat)
  (digits, power - fraction.length)

/-- Whether the number rounds to a finite double: it lies below `2^1024` less half a unit in the
last place. -/
def isFinite (spelling : String) : Bool :=
  let (digits, power) := decimalParts spelling.toList
  let top := Nat.pow 2 1024 - Nat.pow 2 970
  let size : Int := (Nat.toDigits 10 digits).length + power
  if digits = 0 ∨ size < 308 then true
  else if 310 < size then false
  else if 0 ≤ power then digits * Nat.pow 10 power.toNat < top
  else digits < top * Nat.pow 10 power.natAbs

mutual

/-- Whether the value can be kept, with so many levels of containers left. -/
def canKeep (levels : Nat) : Json → Bool
  | null | bool _ | int _ | str _ => true
  | number s => isFinite s
  | unreadable => false
  | arr items =>
    match levels with
    | 0 => false
    | n + 1 => canKeepItems n items
  | obj ms =>
    match levels with
    | 0 => false
    | n + 1 => canKeepMembers n ms

/-- Whether every item can be kept. -/
def canKeepItems (levels : Nat) : List Json → Bool
  | [] => true
  | v :: rest => canKeep levels v && canKeepItems levels rest

/-- Whether every member can be kept. -/
def canKeepMembers (levels : Nat) : List (String × Json) → Bool
  | [] => true
  | (_, v) :: rest => canKeep levels v && canKeepMembers levels rest

end

/-- How deep containers may nest in a document whose parts are kept. -/
def depthLimit : Nat := 127

end ImageRollout.Json
