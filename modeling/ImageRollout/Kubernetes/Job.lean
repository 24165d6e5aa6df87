import ImageRollout.Kubernetes.Pod
import ImageRollout.Kubernetes.Shapes.Workload

/-!
# Jobs
-/

namespace ImageRollout.Kubernetes

/-- A label selector. -/
structure LabelSelector where
  matchLabels : Option TextMap := none
  /-- All other fields, in normal form. -/
  rest : List (String × Json) := []
  deriving Inhabited

/-- What a job asks for. -/
structure JobSpec where
  selector : Option LabelSelector := none
  template : PodTemplate := {}
  /-- All other fields, in normal form. -/
  rest : List (String × Json) := []
  deriving Inhabited

/-- A job. -/
structure Job where
  metadata : Metadata := {}
  spec : Option JobSpec := none
  status : Option Json := none
  deriving Inhabited

namespace LabelSelector

/-- The selector that an object holds. -/
def read? (levels : Nat) (v : Json) : Option LabelSelector := do
  let ms ← v.members?
  return {
    matchLabels := ← field? ms "matchLabels" TextMap.ofJson?
    rest := ← restFields? (levels - 1) ms Shapes.labelSelectorRest }

/-- The selector as an object. -/
def toJson (s : LabelSelector) : Json :=
  .obj (member "matchLabels" TextMap.toJson s.matchLabels ++ s.rest)

end LabelSelector

namespace JobSpec

/-- The specification that an object holds. -/
def read? (levels : Nat) (v : Json) : Option JobSpec := do
  let ms ← v.members?
  return {
    selector := ← field? ms "selector" (LabelSelector.read? (levels - 1))
    template := (← field? ms "template" (PodTemplate.read? (levels - 1))).getD {}
    rest := ← restFields? (levels - 1) ms Shapes.jobSpecRest }

/-- The specification as an object. -/
def toJson (s : JobSpec) : Json :=
  .obj (member "selector" LabelSelector.toJson s.selector ++ ("template", s.template.toJson) ::
    s.rest)

end JobSpec

namespace Job

/-- The job that an object holds. -/
def read? (levels : Nat) (v : Json) : Option Job := do
  let ms ← v.members?
  if !typeMatches ms "batch/v1" "Job" then none
  return {
    metadata := (← field? ms "metadata" (Metadata.read? (levels - 1))).getD {}
    spec := ← field? ms "spec" (JobSpec.read? (levels - 1))
    status := ← field? ms "status" (Shapes.jobStatus.read? (levels - 1)) }

/-- The job that a document holds. -/
def ofJson? (v : Json) : Option Job := read? Json.depthLimit v

/-- The job as a document. -/
def toJson (j : Job) : Json :=
  .obj ([("apiVersion", .str "batch/v1"), ("kind", .str "Job"),
      ("metadata", j.metadata.toJson)] ++ member "spec" JobSpec.toJson j.spec ++
    member "status" id j.status)

/-- The name by which the job is called. -/
def name (j : Job) : String := j.metadata.anyName

/-- What the job's pods run. -/
def podSpec? (j : Job) : Option PodSpec := j.spec.bind (·.template.spec)

end Job

end ImageRollout.Kubernetes
