import ImageRollout.Image.Push
import ImageRollout.Kubernetes.Deployment
import ImageRollout.Rollout.Patch

/-!
# Plans for a pushed image

Every deployment that runs the pushed image under another tag is moved to the pushed tag.  Images
are compared as pushes are read, by their last colon, so an image without a tag runs `latest`.
Init containers are left alone.
-/

namespace ImageRollout.Rollout

open Kubernetes

/-- The new images of one deployment. -/
structure Plan where
  deployment : String
  /-- Pairs of a container's name and its new image. -/
  changes : List (String × String)
  deriving DecidableEq, Repr

/-- Whether a container has to move. -/
def isOutdated (push : Image.Push) (c : Container) : Bool := c.image.any push.supersedes

/-- The containers of a deployment that have to move, with the image they move to. -/
def changes (push : Image.Push) (d : Deployment) : List (String × String) :=
  match d.podSpec? with
  | some spec => (spec.containers.filter (isOutdated push)).map fun c => (c.name, push.text)
  | none => []

/-- The plan for one deployment, if anything in it has to move. -/
def planOne (push : Image.Push) (d : Deployment) : Option Plan :=
  match changes push d with
  | [] => none
  | changes => some { deployment := d.name, changes }

/-- The plans for a push, in the order of the deployments. -/
def plan (push : Image.Push) (deployments : List Deployment) : List Plan :=
  deployments.filterMap (planOne push)

/-- The patch that carries a plan out. -/
def Plan.patch (p : Plan) : Patch := .images p.changes

end ImageRollout.Rollout
