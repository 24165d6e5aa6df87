import ImageRollout.Json.Basic
import ImageRollout.Time.Instant

/-!
# Patches of deployments

The two changes that are ever made to a deployment: its pods are restarted, by an annotation of
the pod template, or some of its containers are given new images.  Both are strategic merge
patches: maps merge key by key and containers by name, so whatever a patch does not mention stays
as it is.
-/

namespace ImageRollout.Rollout

/-- A change to a deployment. -/
inductive Patch where
  | restart (time : Time.Instant)
  /-- New images, as pairs of a container's name and its image. -/
  | images (changes : List (String × String))
  deriving DecidableEq, Repr

/-- The annotation whose change makes every pod start anew. -/
def restartKey : String := "kubectl.kubernetes.io/restartedAt"

namespace Patch

/-- A patch of the pod template. -/
def ofTemplate (template : Json) : Json := .obj [("spec", .obj [("template", template)])]

/-- The patch as a document. -/
def toJson : Patch → Json
  | restart time =>
    ofTemplate (.obj [("metadata", .obj [("annotations",
      .obj [(restartKey, .str time.text)])])])
  | images changes =>
    let container (c : String × String) : Json := .obj [("name", .str c.1), ("image", .str c.2)]
    ofTemplate (.obj [("spec", .obj [("containers", .arr (changes.map container))])])

end Patch

end ImageRollout.Rollout
