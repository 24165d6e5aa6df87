import ImageRollout.Kubernetes.Metadata
import ImageRollout.Kubernetes.Shapes.Workload

/-!
# Config maps and namespaces

Of both, only the metadata matters here; their other fields must still read.
-/

namespace ImageRollout.Kubernetes

/-- A config map. -/
structure ConfigMap where
  metadata : Metadata := {}
  /-- All other fields, in normal form. -/
  rest : List (String × Json) := []
  deriving Inhabited

/-- A namespace. -/
structure Namespace where
  metadata : Metadata := {}
  /-- All other fields, in normal form. -/
  rest : List (String × Json) := []
  deriving Inhabited

/-- The metadata and the other fields of an object of a type. -/
def plainObject? (apiVersion kind : String) (rest : List (String × Shape)) (levels : Nat)
    (v : Json) : Option (Metadata × List (String × Json)) := do
  let ms ← v.members?
  if !typeMatches ms apiVersion kind then none
  return ((← field? ms "metadata" (Metadata.read? (levels - 1))).getD {},
    ← restFields? (levels - 1) ms rest)

namespace ConfigMap

/-- The config map that a document holds. -/
def ofJson? (v : Json) : Option ConfigMap :=
  (plainObject? "v1" "ConfigMap" Shapes.configMapRest Json.depthLimit v).map
    fun (metadata, rest) => { metadata, rest }

/-- The name by which the config map is called. -/
def name (c : ConfigMap) : String := c.metadata.anyName

/-- The version of the config map as the server last stored it. -/
def version (c : ConfigMap) : Option String := c.metadata.resourceVersion

end ConfigMap

namespace Namespace

/-- The namespace that a document holds. -/
def ofJson? (v : Json) : Option Namespace :=
  (plainObject? "v1" "Namespace" Shapes.namespaceRest Json.depthLimit v).map
    fun (metadata, rest) => { metadata, rest }

/-- The name by which the namespace is called. -/
def name (n : Namespace) : String := n.metadata.anyName

end Namespace

end ImageRollout.Kubernetes
