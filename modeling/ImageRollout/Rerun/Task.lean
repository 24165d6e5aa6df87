import ImageRollout.Rerun.Claims
import ImageRollout.Rerun.Copy
import ImageRollout.Rerun.Decision

/-!
# Reruns under way

A rerun deletes the job and creates its copy.  Only the creation is tried again, after a pause each
time; when all attempts have failed the job stays deleted.  As long as a rerun is under way it holds
the claim on the job's name, so a push that comes in the meantime does not start another one.
-/

namespace ImageRollout.Rerun

open Kubernetes

/-- How often the creation is attempted. -/
def attempts : Nat := 3

/-- How long the pause between two attempts is, in milliseconds. -/
def pause : Nat := 1000

/-- What a rerun is at. -/
inductive Stage where
  | deleting
  | creating (attempt : Nat)
  /-- The attempt has failed, and the next one is due after a pause. -/
  | pausing (attempt : Nat)
  deriving DecidableEq, Repr

/-- A rerun of a job as it was listed. -/
structure Task where
  job : Job
  stage : Stage := .deleting

/-- What comes of a rerun. -/
inductive Verdict where
  | goesOn (stage : Stage)
  | succeeded
  | failed
  deriving DecidableEq, Repr

/-- What comes of a stage, given whether the server accepted what was asked of it.  A pause is over
either way. -/
def Stage.next (accepted : Bool) : Stage → Verdict
  | deleting => if accepted then .goesOn (.creating 1) else .failed
  | creating attempt =>
    if accepted then .succeeded
    else if attempt < attempts then .goesOn (.pausing attempt)
    else .failed
  | pausing attempt => .goesOn (.creating (attempt + 1))

/-- The reruns of a namespace, each known by the name of its job, which it has claimed. -/
structure Reruns where
  claims : Claims := {}
  tasks : Table Task := []

namespace Reruns

/-- Starts the rerun of a job, unless its name is claimed. -/
def begin (j : Job) (r : Reruns) : Reruns :=
  match r.claims.claim? j.name j.name with
  | some claims => { claims, tasks := r.tasks ++ [(j.name, { job := j })] }
  | none => r

/-- Starts the reruns of the jobs that a push concerns. -/
def receive (push : Image.Push) (jobs : List Job) (r : Reruns) : Reruns :=
  (jobs.filter (needsRerun push)).foldl (fun r j => r.begin j) r

/-- Ends the rerun of a name, which frees the name. -/
def finish (name : String) (r : Reruns) : Reruns :=
  { claims := r.claims.release name, tasks := r.tasks.erase name }

/-- Moves the rerun of a name to another stage. -/
def moveTo (name : String) (stage : Stage) (r : Reruns) : Reruns :=
  { r with tasks := r.tasks.map fun (k, t) => (k, if k = name then { t with stage } else t) }

end Reruns

end ImageRollout.Rerun
