import ImageRollout.Controllers.Registry
import ImageRollout.Image.Push
import ImageRollout.Notice

/-!
# Teams of controllers

The controllers of one namespace, one of every registered kind.  They are made together, run one
after the other, are given every push in turn and are stopped together.  What a controller consists
of is left open; only how it behaves where the team depends on it matters here.

Every operation tells what was done, as a list of deeds.
-/

namespace ImageRollout.Controllers

/-- How a controller's run goes on. -/
inductive Progress where
  | over
  | failed (cause : String)
  /-- The run is over so many milliseconds after its beginning. -/
  | lasting (duration : Nat)
  /-- The run is over once something else has happened. -/
  | waiting
  deriving DecidableEq, Repr

/-- How controllers behave where a team depends on it. -/
structure Conduct (C : Type) where
  /-- The progress of a controller's run, given whether the controller is stopped. -/
  progress : C → Bool → Progress
  /-- The cause with which stopping a controller fails. -/
  stopFailure : C → Option String := fun _ => none

/-- Something that was done to controllers. -/
inductive Deed where
  | made (namespaceName kind : String)
  | began (namespaceName kind : String)
  | ended (namespaceName kind : String)
  | stopped (namespaceName kind : String)
  | received (namespaceName kind : String) (push : Image.Push)
  | syncFailed (namespaceName : String) (change : Namespaces.Change) (cause : String)
  | runFailed (namespaceName cause : String)
  | pushFailed (namespaceName : String) (push : Image.Push) (cause : String)
  deriving DecidableEq, Repr

/-- What is to be reported about a deed: the failures. -/
def Deed.notice? : Deed → Option Notice
  | syncFailed n change cause => some (.syncFailed n change cause)
  | runFailed n cause => some (.startFailed n cause)
  | pushFailed n push cause => some (.controllerFailed n push cause)
  | _ => none

/-- A controller in a team. -/
structure Member (C : Type) where
  kind : String
  body : C
  /-- Whether the controller itself was stopped. -/
  stopped : Bool := false

/-- How far a run of a team has come. -/
structure Run where
  /-- How many controllers it is through with. -/
  position : Nat := 0
  /-- When the run of the next controller began, if it has. -/
  began : Option Nat := none
  deriving DecidableEq, Repr

/-- The controllers of a namespace in the order of their registration. -/
structure Team (C : Type) where
  namespaceName : String
  members : List (Member C)
  /-- Whether the team was stopped as a whole. -/
  stopped : Bool := false
  runs : List Run := []

namespace Team

variable {C : Type}

/-- Makes the members of a team in order, up to the first that fails to be made. -/
def makeMembers (n : String) : List (String × (String → Except String C)) →
    Except String (List (Member C)) × List Deed
  | [] => (.ok [], [])
  | (kind, maker) :: rest =>
    match maker n with
    | .error cause => (.error cause, [.made n kind])
    | .ok body =>
      let (members, deeds) := makeMembers n rest
      (members.map ({ kind, body } :: ·), .made n kind :: deeds)

/-- Makes the team of a namespace, or tells why one of its members cannot be made. -/
def make (registry : Registry (String → Except String C)) (n : String) :
    Except String (Team C) × List Deed :=
  let (members, deeds) := makeMembers n registry.entries
  (members.map fun members => { namespaceName := n, members }, deeds)

/-- Stops members in order, up to the first that fails to stop. -/
def stopMembers (conduct : Conduct C) (n : String) : List (Member C) →
    List (Member C) × Option String × List Deed
  | [] => ([], none, [])
  | m :: rest =>
    match conduct.stopFailure m.body with
    | some cause => (m :: rest, some cause, [.stopped n m.kind])
    | none =>
      let (rest, failure, deeds) := stopMembers conduct n rest
      ({ m with stopped := true } :: rest, failure, .stopped n m.kind :: deeds)

/-- Stops all members and then the team, unless a member fails to stop. -/
def stop (conduct : Conduct C) (t : Team C) : Team C × Option String × List Deed :=
  let (members, failure, deeds) := stopMembers conduct t.namespaceName t.members
  ({ t with members, stopped := t.stopped || failure.isNone }, failure, deeds)

/-- Begins a run of the team. -/
def beginRun (t : Team C) : Team C := { t with runs := t.runs ++ [{}] }

/-- Whether a member is stopped: by itself, with its team, or with everything. -/
def isStopped (allStopped : Bool) (t : Team C) (m : Member C) : Bool :=
  allStopped || t.stopped || m.stopped

/-- Continues a run with the members it is not through with.  `position` members are behind it, and
`began` tells when the run of the next one began.  Every member runs as soon as the one before it is
over, and nothing happens at the deadline or later. -/
def continueRun (conduct : Conduct C) (allStopped : Bool) (deadline : Nat) (t : Team C) :
    List (Member C) → Nat → Option Nat → Nat → Run × List Deed
  | [], _, _, position => ({ position }, [])
  | m :: rest, now, began, position =>
    let n := t.namespaceName
    let start := began.getD now
    let first := if began.isNone then [Deed.began n m.kind] else []
    let onward (now : Nat) : Run × List Deed :=
      let (run, deeds) := continueRun conduct allStopped deadline t rest now none (position + 1)
      (run, first ++ Deed.ended n m.kind :: deeds)
    match conduct.progress m.body (isStopped allStopped t m) with
    | .over => onward now
    | .failed cause => ({ position := position + 1 + rest.length }, first ++ [.runFailed n cause])
    | .lasting duration =>
      if start + duration < deadline then onward (start + duration)
      else ({ position, began := some start }, first)
    | .waiting => ({ position, began := some start }, first)

/-- Continues all runs of the team until the deadline. -/
def settle (conduct : Conduct C) (allStopped : Bool) (now deadline : Nat) (t : Team C) :
    Team C × List Deed :=
  let results := t.runs.map fun r =>
    continueRun conduct allStopped deadline t (t.members.drop r.position) now r.began r.position
  ({ t with runs := results.map (·.1) }, results.flatMap (·.2))

end Team

end ImageRollout.Controllers
