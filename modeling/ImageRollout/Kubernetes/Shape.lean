import ImageRollout.Json.Kept
import ImageRollout.Time.Reader

/-!
# Shapes of Kubernetes objects

The API says for every field of an object what kind of value it holds.  Objects are read leniently:
unknown fields are dropped, a missing or null field is left out, or has the empty value of its
shape where the field is required; of a repeated field the last one counts.  A value of the wrong
kind makes the whole object unreadable.

* `Shape.read?` gives the value in its normal form, or nothing.
-/

namespace ImageRollout.Kubernetes

mutual

/-- The kind of value that a field holds. -/
inductive Shape where
  | text
  | bool
  | int32
  | int64
  /-- A time stamp; its normal form is in universal time. -/
  | instant
  | intOrText
  /-- Bytes in base64. -/
  | base64
  /-- Any value. -/
  | anything
  | list (item : Shape)
  /-- An object with free keys. -/
  | map (value : Shape)
  | record (fields : Fields)

/-- The fields of a record. -/
inductive Fields where
  | nil
  | field (name : String) (required : Bool) (shape : Shape) (rest : Fields)

end

/-- Fields in a row, all required or all optional, before others. -/
def Fields.prepend (required : Bool) (fields : List (String × Shape)) (rest : Fields) : Fields :=
  fields.foldr (fun f rest => .field f.1 required f.2 rest) rest

/-- A record with required and optional fields. -/
def Shape.of (required optional : List (String × Shape)) : Shape :=
  .record (Fields.prepend true required (Fields.prepend false optional .nil))

/-- Fields of one shape. -/
def each (shape : Shape) (names : List String) : List (String × Shape) := names.map (·, shape)

/-- Text fields. -/
def texts (names : List String) : List (String × Shape) := each .text names

/-- The value of a base64 digit. -/
def base64Digit? (c : Char) : Option Nat :=
  if c.isUpper then some (c.toNat - 65)
  else if c.isLower then some (c.toNat - 71)
  else if c.isDigit then some (c.toNat + 4)
  else if c = '+' then some 62
  else if c = '/' then some 63
  else none

/-- Whether the text is base64: groups of four digits, the last one padded, no bits left over. -/
def isBase64 : List Char → Bool
  | [] => true
  | [a, b, '=', '='] => (base64Digit? a).isSome && (base64Digit? b).any (· % 16 = 0)
  | [a, b, c, '='] =>
    (base64Digit? a).isSome && (base64Digit? b).isSome && (base64Digit? c).any (· % 4 = 0)
  | a :: b :: c :: d :: rest => [a, b, c, d].all (base64Digit? · |>.isSome) && isBase64 rest
  | _ => false

mutual

/-- The empty value of a shape, which a required field has when it is not given. -/
def Shape.empty : Shape → Json
  | .text | .instant | .base64 => .str ""
  | .bool => .bool false
  | .int32 | .int64 | .intOrText => .int 0
  | .anything => .null
  | .list _ => .arr []
  | .map _ => .obj []
  | .record fields => .obj fields.empties

/-- The required fields of a record with their empty values. -/
def Fields.empties : Fields → List (String × Json)
  | .nil => []
  | .field name required shape rest =>
    if required then (name, shape.empty) :: rest.empties else rest.empties

end

/-- The members without those that a later one of the same key replaces. -/
def lastOfEach (members : List (String × Json)) : List (String × Json) :=
  match members with
  | [] => []
  | m :: rest => if rest.any (·.1 == m.1) then lastOfEach rest else m :: lastOfEach rest

mutual

/-- The normal form of a value of the shape, with so many levels of containers left. -/
def Shape.read? (levels : Nat) : Shape → Json → Option Json
  | .text, v => v.text?.map .str
  | .bool, v => v.bool?.map .bool
  | .int32, v => v.int32?.map .int
  | .int64, v => v.int64?.map .int
  | .instant, v => v.text?.bind Time.Instant.parse? |>.map fun t => .str t.zuluText
  | .intOrText, v => (v.int32?.map .int).or (v.text?.map .str)
  | .base64, v => v.text?.bind fun s => if isBase64 s.toList then some (.str s) else none
  | .anything, v => if v.canKeep levels then some v else none
  | .list item, v => do return .arr (← (← v.items?).mapM (item.read? (levels - 1)))
  | .map value, v => do
    let read (m : String × Json) : Option (String × Json) :=
      (value.read? (levels - 1) m.2).map (m.1, ·)
    return .obj (lastOfEach (← (← v.members?).mapM read))
  | .record fields, v => do return .obj (← fields.read? (levels - 1) (← v.members?))

/-- The fields of a record among the members of an object. -/
def Fields.read? (levels : Nat) :
    Fields → List (String × Json) → Option (List (String × Json))
  | .nil, _ => some []
  | .field name required shape rest, members => do
    let given := (members.filter (·.1 == name)).map (·.2)
    let values ← given.mapM fun v => match v with
      | .null => some none
      | v => (shape.read? levels v).map some
    let fields ← rest.read? levels members
    match values.getLast?.join with
    | some v => return (name, v) :: fields
    | none => return if required then (name, shape.empty) :: fields else fields

end

end ImageRollout.Kubernetes
