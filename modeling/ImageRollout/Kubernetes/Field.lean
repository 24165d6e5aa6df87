import ImageRollout.Kubernetes.Shape

/-!
# Fields of objects

Reading and writing single fields of a Kubernetes object: a missing or null field is not there, and
of a repeated field the last one counts, though all of them must read.
-/

namespace ImageRollout.Kubernetes

/-- The field of an object, if it is there; nothing where one of its values does not read. -/
def field? {α : Type} (members : List (String × Json)) (name : String)
    (read? : Json → Option α) : Option (Option α) := do
  let given := (members.filter (·.1 == name)).map (·.2)
  let values ← given.mapM fun v => match v with
    | .null => some none
    | v => (read? v).map some
  return values.getLast?.join

/-- A text field. -/
def textField? (members : List (String × Json)) (name : String) : Option (Option String) :=
  field? members name Json.text?

/-- The fields that a table of optional fields describes, in normal form. -/
def restFields? (levels : Nat) (members : List (String × Json))
    (fields : List (String × Shape)) : Option (List (String × Json)) :=
  (Fields.prepend false fields .nil).read? levels members

/-- A member for a field that is there. -/
def member {α : Type} (name : String) (write : α → Json) (value : Option α) :
    List (String × Json) :=
  (value.map fun v => (name, write v)).toList

/-- A map from texts to texts, such as labels and annotations. -/
abbrev TextMap := List (String × String)

namespace TextMap

/-- The map that an object holds. -/
def ofJson? (v : Json) : Option TextMap := do
  let entries ← (← v.members?).mapM fun (k, v) => v.text?.map (k, ·)
  return lastOf entries
where
  lastOf : TextMap → TextMap
    | [] => []
    | e :: rest => if rest.any (·.1 == e.1) then lastOf rest else e :: lastOf rest

/-- The map as an object. -/
def toJson (m : TextMap) : Json := .obj (m.map fun (k, v) => (k, .str v))

/-- The map without a key. -/
def without (key : String) (m : TextMap) : TextMap := m.filter (·.1 ≠ key)

/-- The map with the value of a key changed. -/
def change (key : String) (f : String → String) (m : TextMap) : TextMap :=
  m.map fun (k, v) => if k = key then (k, f v) else (k, v)

end TextMap

/-- Whether an object's type, where it is given, is the expected one. -/
def typeMatches (members : List (String × Json)) (apiVersion kind : String) : Bool :=
  members.all fun (k, v) =>
    (k ≠ "apiVersion" || v.text? == some apiVersion) && (k ≠ "kind" || v.text? == some kind)

end ImageRollout.Kubernetes
