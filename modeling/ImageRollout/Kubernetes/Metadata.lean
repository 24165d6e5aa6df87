import ImageRollout.Kubernetes.Field
import ImageRollout.Kubernetes.Shapes.Metadata

/-!
# Metadata

What every object says of itself.
-/

namespace ImageRollout.Kubernetes

/-- The metadata of an object. -/
structure Metadata where
  name : Option String := none
  generateName : Option String := none
  namespaceName : Option String := none
  uid : Option String := none
  resourceVersion : Option String := none
  creationTimestamp : Option String := none
  managedFields : Option Json := none
  labels : Option TextMap := none
  annotations : Option TextMap := none
  /-- All other fields, in normal form. -/
  rest : List (String × Json) := []
  deriving Inhabited

namespace Metadata

/-- The metadata that an object holds. -/
def read? (levels : Nat) (v : Json) : Option Metadata := do
  let ms ← v.members?
  let within (shape : Shape) (v : Json) := shape.read? (levels - 1) v
  return {
    name := ← textField? ms "name"
    generateName := ← textField? ms "generateName"
    namespaceName := ← textField? ms "namespace"
    uid := ← textField? ms "uid"
    resourceVersion := ← textField? ms "resourceVersion"
    creationTimestamp := (← field? ms "creationTimestamp" (within .instant)).bind Json.text?
    managedFields := ← field? ms "managedFields" (within (.list Shapes.managedFields))
    labels := ← field? ms "labels" TextMap.ofJson?
    annotations := ← field? ms "annotations" TextMap.ofJson?
    rest := ← restFields? (levels - 1) ms Shapes.metadataRest }

/-- The metadata as an object. -/
def toJson (m : Metadata) : Json :=
  .obj (member "name" .str m.name ++ member "generateName" .str m.generateName ++
    member "namespace" .str m.namespaceName ++ member "uid" .str m.uid ++
    member "resourceVersion" .str m.resourceVersion ++
    member "creationTimestamp" .str m.creationTimestamp ++
    member "managedFields" id m.managedFields ++ member "labels" TextMap.toJson m.labels ++
    member "annotations" TextMap.toJson m.annotations ++ m.rest)

/-- The name by which the object is called: its own, or else the one that its name is made from. -/
def anyName (m : Metadata) : String := (m.name.or m.generateName).getD ""

/-- The value of a label. -/
def label? (m : Metadata) (key : String) : Option String := m.labels.bind (·.lookup key)

/-- The value of an annotation. -/
def annotated? (m : Metadata) (key : String) : Option String := m.annotations.bind (·.lookup key)

end Metadata

end ImageRollout.Kubernetes
