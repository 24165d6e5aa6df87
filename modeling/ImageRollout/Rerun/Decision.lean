import ImageRollout.Image.Push
import ImageRollout.Kubernetes.Job

/-!
# Which jobs a push reruns

A job takes part if it carries the rerun annotation with any value but `false`.  It runs again
when a container of it has the pushed image under another tag, or under any tag if the container
always pulls its image.
-/

namespace ImageRollout.Rerun

open Kubernetes

/-- The annotation by which a job takes part. -/
def optInKey : String := "laborer.job.rerun"

/-- Whether the job takes part. -/
def takesPart (j : Job) : Bool := (j.metadata.annotated? optInKey).any (· ≠ "false")

/-- Whether the push is news for the container. -/
def concerns (push : Image.Push) (c : Container) : Bool :=
  c.image.any fun image =>
    push.sameImage image &&
      (push.supersedes image || c.imagePullPolicy == some "Always")

/-- Whether the push makes the job run again. -/
def needsRerun (push : Image.Push) (j : Job) : Bool :=
  takesPart j && j.podSpec?.any fun spec => spec.containers.any (concerns push)

end ImageRollout.Rerun
