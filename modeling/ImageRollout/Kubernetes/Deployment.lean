import ImageRollout.Kubernetes.Pod
import ImageRollout.Kubernetes.Shapes.Workload

/-!
# Deployments
-/

namespace ImageRollout.Kubernetes

/-- What a deployment asks for. -/
structure DeploymentSpec where
  template : PodTemplate := {}
  /-- All other fields, in normal form. -/
  rest : List (String × Json) := []
  deriving Inhabited

/-- A deployment. -/
structure Deployment where
  metadata : Metadata := {}
  spec : Option DeploymentSpec := none
  status : Option Json := none
  deriving Inhabited

namespace DeploymentSpec

/-- The specification that an object holds. -/
def read? (levels : Nat) (v : Json) : Option DeploymentSpec := do
  let ms ← v.members?
  return {
    template := (← field? ms "template" (PodTemplate.read? (levels - 1))).getD {}
    rest := ← Shapes.deploymentSpecRest.read? (levels - 1) ms }

end DeploymentSpec

namespace Deployment

/-- The deployment that an object holds. -/
def read? (levels : Nat) (v : Json) : Option Deployment := do
  let ms ← v.members?
  if !typeMatches ms "apps/v1" "Deployment" then none
  return {
    metadata := (← field? ms "metadata" (Metadata.read? (levels - 1))).getD {}
    spec := ← field? ms "spec" (DeploymentSpec.read? (levels - 1))
    status := ← field? ms "status" (Shapes.deploymentStatus.read? (levels - 1)) }

/-- The deployment that a document holds. -/
def ofJson? (v : Json) : Option Deployment := read? Json.depthLimit v

/-- The name by which the deployment is called. -/
def name (d : Deployment) : String := d.metadata.anyName

/-- What the deployment's pods run. -/
def podSpec? (d : Deployment) : Option PodSpec := d.spec.bind (·.template.spec)

end Deployment

end ImageRollout.Kubernetes
