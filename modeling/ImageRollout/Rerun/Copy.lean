import ImageRollout.Kubernetes.Job
import ImageRollout.Text.Split

/-!
# The copy that is created

To run again, a job is deleted and created anew from a copy.  The copy leaves out what the server
assigned to the old one: its identity and version, its status, and the labels that tie pods to
the old job.  The annotation that records revisions marks those still running as unfinished.
-/

namespace ImageRollout.Rerun

open Kubernetes

/-- The annotation that records a job's revisions. -/
def revisionsKey : String := "revisions"

/-- The labels that tie pods to one job. -/
def identityLabels : List String := ["controller-uid", "batch.kubernetes.io/controller-uid"]

/-- A record of revisions in which none runs. -/
def unfinished (revisions : String) : String :=
  String.ofList (Text.replaceAll 'r' "unning".toList "unfinished".toList revisions.toList)

/-- Labels without those that tie pods to one job. -/
def withoutIdentity (labels : TextMap) : TextMap := labels.filter (·.1 ∉ identityLabels)

/-- Metadata without what the server assigned. -/
def freshMetadata (m : Metadata) : Metadata :=
  { m with
    uid := none, resourceVersion := none, creationTimestamp := none, managedFields := none
    annotations := m.annotations.map (·.change revisionsKey unfinished) }

/-- A specification without the labels that tie pods to one job. -/
def freshSpec (s : JobSpec) : JobSpec :=
  { s with
    selector := s.selector.map fun l => { l with matchLabels := l.matchLabels.map withoutIdentity }
    template := { s.template with
      metadata := s.template.metadata.map fun m =>
        { m with labels := m.labels.map withoutIdentity } } }

/-- The copy of a job that the server accepts as a new one. -/
def copy (j : Job) : Job :=
  { metadata := freshMetadata j.metadata, spec := j.spec.map freshSpec, status := none }

end ImageRollout.Rerun
