import ImageRollout.Controllers.Team

/-!
# Controllers by script

A controller that does nothing but follow a script can stand in for any other when a fleet is tried
out: it can fail wherever a controller can fail, and its run can take its time.
-/

namespace ImageRollout.Controllers

/-- What a scripted controller does with a push. -/
inductive Script.Reception where
  | recorded
  | ignored
  | failed (cause : String)
  deriving DecidableEq, Repr

/-- A script. -/
structure Script where
  /-- The progress of the run while the controller is not stopped. -/
  running : Progress := .over
  /-- The progress of the run once the controller is stopped. -/
  runningStopped : Progress := .over
  stopFailure : Option String := none
  reception : Script.Reception := .recorded
  deriving DecidableEq, Repr

namespace Script

/-- How scripted controllers behave. -/
def conduct : Conduct Script where
  progress s stopped := if stopped then s.runningStopped else s.running
  stopFailure s := s.stopFailure

/-- What a scripted controller does with a push. -/
def receive (n : String) (m : Member Script) (push : Image.Push) : List Deed :=
  match m.body.reception with
  | .recorded => [.received n m.kind push]
  | .ignored => []
  | .failed cause => [.pushFailed n push cause]

end Script

end ImageRollout.Controllers
