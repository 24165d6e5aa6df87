import ImageRollout.Kubernetes.Metadata
import ImageRollout.Kubernetes.Shapes.Pod

/-!
# Pods

The pod template of a workload: its metadata and its containers.
-/

namespace ImageRollout.Kubernetes

/-- A container of a pod. -/
structure Container where
  name : String
  image : Option String := none
  imagePullPolicy : Option String := none
  /-- All other fields, in normal form. -/
  rest : List (String × Json) := []
  deriving Inhabited

namespace Container

/-- The container that an object holds. -/
def read? (levels : Nat) (v : Json) : Option Container := do
  let ms ← v.members?
  return {
    name := (← textField? ms "name").getD ""
    image := ← textField? ms "image"
    imagePullPolicy := ← textField? ms "imagePullPolicy"
    rest := ← restFields? (levels - 1) ms Shapes.containerRest }

/-- The container as an object. -/
def toJson (c : Container) : Json :=
  .obj (("name", .str c.name) :: member "image" .str c.image ++
    member "imagePullPolicy" .str c.imagePullPolicy ++ c.rest)

end Container

/-- What a pod runs. -/
structure PodSpec where
  initContainers : Option (List Container) := none
  containers : List Container := []
  /-- All other fields, in normal form. -/
  rest : List (String × Json) := []
  deriving Inhabited

namespace PodSpec

/-- The pod specification that an object holds. -/
def read? (levels : Nat) (v : Json) : Option PodSpec := do
  let ms ← v.members?
  let containers := Json.listOf? (Container.read? (levels - 2))
  return {
    initContainers := ← field? ms "initContainers" containers
    containers := (← field? ms "containers" containers).getD []
    rest := ← restFields? (levels - 1) ms Shapes.podRest }

/-- The pod specification as an object. -/
def toJson (s : PodSpec) : Json :=
  let list (cs : List Container) : Json := .arr (cs.map Container.toJson)
  .obj (member "initContainers" list s.initContainers ++ ("containers", list s.containers) ::
    s.rest)

end PodSpec

/-- The template that a workload makes its pods from. -/
structure PodTemplate where
  metadata : Option Metadata := none
  spec : Option PodSpec := none
  deriving Inhabited

namespace PodTemplate

/-- The pod template that an object holds. -/
def read? (levels : Nat) (v : Json) : Option PodTemplate := do
  let ms ← v.members?
  return {
    metadata := ← field? ms "metadata" (Metadata.read? (levels - 1))
    spec := ← field? ms "spec" (PodSpec.read? (levels - 1)) }

/-- The pod template as an object. -/
def toJson (t : PodTemplate) : Json :=
  .obj (member "metadata" Metadata.toJson t.metadata ++ member "spec" PodSpec.toJson t.spec)

end PodTemplate

end ImageRollout.Kubernetes
