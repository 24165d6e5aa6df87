import ImageRollout.Kubernetes.Shape

/-!
# Metadata, selectors and references

What objects of all kinds share: metadata, label selectors, conditions, and the small records that
point at another object.
-/

namespace ImageRollout.Kubernetes.Shapes

open Shape

/-- A map from texts to texts, such as labels. -/
def textMap : Shape := map text

/-- A list of texts. -/
def textList : Shape := list text

/-- Labels that a selector asks for, or a field that it compares. -/
def requirement : Shape := of (texts ["key", "operator"]) [("values", textList)]

/-- What a label selector holds beside the labels to match. -/
def labelSelectorRest : List (String × Shape) := [("matchExpressions", list requirement)]

/-- A label selector. -/
def labelSelector : Shape := of [] (("matchLabels", textMap) :: labelSelectorRest)

/-- The owner of an object. -/
def ownerReference : Shape :=
  of (texts ["apiVersion", "kind", "name", "uid"]) (each bool ["blockOwnerDeletion", "controller"])

/-- Who manages which fields of an object. -/
def managedFields : Shape :=
  of [] (texts ["apiVersion", "fieldsType", "manager", "operation", "subresource"] ++
    [("fieldsV1", anything), ("time", instant)])

/-- Metadata beside the names, the labels and what the server assigns. -/
def metadataRest : List (String × Shape) :=
  [("deletionGracePeriodSeconds", int64), ("deletionTimestamp", instant),
    ("finalizers", textList), ("generation", int64), ("ownerReferences", list ownerReference),
    ("selfLink", text)]

/-- Metadata of an object. -/
def metadata : Shape :=
  of [] (texts ["name", "generateName", "namespace", "uid", "resourceVersion"] ++
    [("labels", textMap), ("annotations", textMap), ("creationTimestamp", instant),
      ("managedFields", list managedFields)] ++ metadataRest)

/-- A condition with the instants that it records. -/
def condition (instants : List String) : Shape :=
  of (texts ["status", "type"]) (each instant instants ++ texts ["message", "reason"])

/-- An object of the same namespace, by its name. -/
def localReference : Shape := of (texts ["name"]) []

/-- A key of a config map or of a secret. -/
def keySelector : Shape := of (texts ["key", "name"]) [("optional", bool)]

/-- A field of the pod. -/
def fieldSelector : Shape := of (texts ["fieldPath"]) (texts ["apiVersion"])

/-- A resource of a container. -/
def resourceSelector : Shape := of (texts ["resource"]) (texts ["containerName", "divisor"])

/-- Quantities by the name of the resource. -/
def quantities : Shape := map text

/-- Resources that a container asks for. -/
def resources : Shape :=
  of [] [("claims", list (of (texts ["name"]) (texts ["request"]))), ("limits", quantities),
    ("requests", quantities)]

end ImageRollout.Kubernetes.Shapes
