import ImageRollout.Json.Basic

/-!
# Records in JSON

A record with named fields is written as an object, or as an array of its fields in the order of
their declaration.  In an object unknown keys are skipped and a field may not be given twice.  An
array may be shorter than the record, but not longer.

What a field that was not given means depends on the field: `required`, `optional` and `orElse`
say so.  An array that is cut short leaves out only what has a default.
-/

namespace ImageRollout.Json

/-- What a record holds for one field. -/
inductive Slot where
  | given (v : Json)
  /-- The object has no such key. -/
  | absent
  /-- The array ends before the field. -/
  | cut

namespace Slot

/-- A field that must be given. -/
def required {α : Type} (decode : Json → Option α) : Slot → Option α
  | given v => decode v
  | _ => none

/-- A field that may be null, or have no key. -/
def optional {α : Type} (decode : Json → Option α) : Slot → Option (Option α)
  | given .null => some none
  | given v => (decode v).map some
  | absent => some none
  | cut => none

/-- A field with a default. -/
def orElse {α : Type} (default : α) (decode : Json → Option α) : Slot → Option α
  | given v => decode v
  | _ => some default

/-- A field that may be null and whose default is nothing. -/
def orNothing {α : Type} (decode : Json → Option α) : Slot → Option (Option α)
  | given .null => some none
  | given v => (decode v).map some
  | _ => some none

end Slot

/-- The slot of a field among an object's members; a field given twice has none. -/
def slotIn? (members : List (String × Json)) (field : String) : Option Slot :=
  match members.filter (·.1 == field) with
  | [] => some .absent
  | [(_, v)] => some (.given v)
  | _ => none

/-- The slots of an array's items for so many fields. -/
def slotsOfItems : List Json → List String → List Slot
  | _, [] => []
  | [], _ :: fields => .cut :: slotsOfItems [] fields
  | v :: items, _ :: fields => .given v :: slotsOfItems items fields

/-- The slots of a record's fields, in the order of the fields. -/
def slots? (fields : List String) : Json → Option (List Slot)
  | obj members => fields.mapM (slotIn? members)
  | arr items => if items.length ≤ fields.length then some (slotsOfItems items fields) else none
  | _ => none

end ImageRollout.Json
