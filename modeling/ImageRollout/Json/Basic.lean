/-!
# JSON values

A value of a JSON text.  Objects keep their members in the order in which they were written,
repetitions included.  Number tokens without fraction and exponent are integers; every other
number keeps its spelling, since nothing here computes with fractions.

A text can be well formed and still hold a string that is no text: one with a lone surrogate
escape, or with bytes that are not UTF-8.  Such a string, and an object with such a key, is
`unreadable`: a reader that skips the value accepts it, and a reader that keeps it does not.
-/

namespace ImageRollout

/-- A JSON value. -/
inductive Json where
  | null
  | bool (b : Bool)
  /-- A number written as an integer of at most twenty digits, other than `-0`. -/
  | int (n : Int)
  /-- Any other number, as it was spelled. -/
  | number (spelling : String)
  | str (s : String)
  | arr (items : List Json)
  | obj (members : List (String × Json))
  /-- A well-formed string that is no text, or an object with such a key. -/
  | unreadable
  deriving Inhabited, Repr

namespace Json

/-- The members of an object. -/
def members? : Json → Option (List (String × Json))
  | obj ms => some ms
  | _ => none

/-- The items of an array. -/
def items? : Json → Option (List Json)
  | arr items => some items
  | _ => none

/-- The text of a string. -/
def text? : Json → Option String
  | str s => some s
  | _ => none

/-- The truth value of a boolean. -/
def bool? : Json → Option Bool
  | bool b => some b
  | _ => none

/-- The integer, if it lies between the bounds. -/
def intWithin? (lo hi : Int) : Json → Option Int
  | int n => if lo ≤ n ∧ n ≤ hi then some n else none
  | _ => none

/-- A 64-bit signed integer. -/
def int64? : Json → Option Int :=
  intWithin? (-9223372036854775808) 9223372036854775807

/-- A 32-bit signed integer. -/
def int32? : Json → Option Int := intWithin? (-2147483648) 2147483647

/-- A list whose items all read. -/
def listOf? {α : Type} (item : Json → Option α) (v : Json) : Option (List α) :=
  v.items?.bind (·.mapM item)

/-- The value of the last member with the key. -/
def get? (v : Json) (key : String) : Option Json := do
  (← v.members?).reverse.lookup key

/-- The value of the last member with the key, unless that is null. -/
def present? (v : Json) (key : String) : Option Json :=
  match v.get? key with
  | some null => none
  | found => found

/-- The item at a position of an array. -/
def at? (v : Json) (index : Nat) : Option Json := do
  (← v.items?)[index]?

/-- An array of texts. -/
def texts (items : List String) : Json := arr (items.map str)

/-- Null where there is nothing. -/
def ofOption {α : Type} (encode : α → Json) : Option α → Json
  | some a => encode a
  | none => null

end Json

end ImageRollout
