import ImageRollout.ConfigMaps.Association
import ImageRollout.Notice

/-!
# Restarts for a changed config map

When a config map has changed, each of its deployments that exists is restarted; one that does not
exist, or an annotation that cannot be read, is reported and stops nothing else.
-/

namespace ImageRollout.ConfigMaps

open Kubernetes

/-- What is to be reported about the config map's annotation. -/
def annotationNotice? (c : ConfigMap) : Option Notice :=
  if hasUnreadableAnnotation c then
    some (.annotationUnreadable associationKey (c.metadata.namespaceName.getD "") c.name)
  else none

/-- What is done about a deployment that a changed config map names. -/
inductive Measure where
  | restart (deployment : String)
  /-- The deployment does not exist, which is reported. -/
  | reportMissing (deployment : String)
  deriving DecidableEq, Repr

/-- What is done about a deployment, given whether it exists. -/
def measure (deploymentExists : Bool) (deployment : String) : Measure :=
  if deploymentExists then .restart deployment else .reportMissing deployment

/-- What is done about the deployments of a changed config map, in ascending order of their
names. -/
def measures (deploymentExists : String → Bool) (c : ConfigMap) : List Measure :=
  (deployments c).map fun d => measure (deploymentExists d) d

end ImageRollout.ConfigMaps
