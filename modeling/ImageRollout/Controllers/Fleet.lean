import ImageRollout.Controllers.Team
import ImageRollout.Text.Names

/-!
# The fleet

A namespace is managed while it carries the label that enables it, and a managed namespace has a
team of controllers.  Changes of namespaces start and stop teams; a push goes to the members of all
managed teams.  A team that fails to be made is not there, and one that fails to stop is not managed
any more all the same.
-/

namespace ImageRollout.Controllers

open Kubernetes Namespaces

/-- The label that enables a namespace. -/
def enableKey : String := "laborer.enable"

/-- Whether a namespace is to be managed. -/
def isEnabled (object : Namespace) : Bool := object.metadata.label? enableKey = some "true"

/-- What a change demands of a namespace's team. -/
inductive Demand where
  | start
  | stop
  | nothing
  deriving DecidableEq, Repr

/-- What a change demands, given whether the namespace is enabled and whether it is managed. -/
def demand (change : Change) (enabled managed : Bool) : Demand :=
  match change with
  | .added => if enabled && !managed then .start else .nothing
  | .modified =>
    if enabled && !managed then .start
    else if !enabled && managed then .stop
    else .nothing
  | .deleted => if managed then .stop else .nothing

/-- The teams of all namespaces. -/
structure Fleet (C : Type) where
  /-- The teams of managed namespaces. -/
  managed : Table (Team C) := []
  /-- Teams that were managed once; their runs may still go on. -/
  retired : List (Team C) := []
  /-- Whether everything was stopped. -/
  stopped : Bool := false

namespace Fleet

variable {C : Type}

/-- The managed namespaces in ascending order. -/
def namespaces (f : Fleet C) : List String := Text.ascending f.managed.names

/-- The managed teams in ascending order of their namespaces. -/
def teams (f : Fleet C) : List (Team C) := f.namespaces.filterMap (List.lookup · f.managed)

/-- Makes a team and begins its run. -/
def startTeam (registry : Registry (String → Except String C)) (change : Change) (n : String)
    (f : Fleet C) : Fleet C × List Deed :=
  match Team.make registry n with
  | (.ok t, deeds) => ({ f with managed := f.managed.insert n t.beginRun }, deeds)
  | (.error cause, deeds) => (f, deeds ++ [.syncFailed n change cause])

/-- Takes a team out and stops it. -/
def stopTeam (conduct : Conduct C) (change : Change) (n : String) (t : Team C) (f : Fleet C) :
    Fleet C × List Deed :=
  let (t, failure, deeds) := t.stop conduct
  ({ f with managed := f.managed.erase n, retired := f.retired ++ [t] },
    deeds ++ (failure.map (Deed.syncFailed n change)).toList)

/-- Does what a change of a namespace demands. -/
def sync (conduct : Conduct C) (registry : Registry (String → Except String C))
    (notification : Notification) (f : Fleet C) : Fleet C × List Deed :=
  let n := notification.object.name
  let team := f.managed.lookup n
  match demand notification.change (isEnabled notification.object) team.isSome, team with
  | .start, _ => f.startTeam registry notification.change n
  | .stop, some t => f.stopTeam conduct notification.change n t
  | _, _ => (f, [])

/-- Stops everything at once, without stopping any team by itself. -/
def stopAll (f : Fleet C) : Fleet C := { f with stopped := true }

/-- Stops teams in order, up to the first that fails to stop. -/
def stopTeams (conduct : Conduct C) : List (Team C) → List (Team C) × List Deed
  | [] => ([], [])
  | t :: rest =>
    let (t, failure, deeds) := t.stop conduct
    if failure.isSome then (t :: rest, deeds)
    else
      let (rest, more) := stopTeams conduct rest
      (t :: rest, deeds ++ more)

/-- Ends the fleet: all teams are taken out and stopped, up to the first that fails to stop. -/
def shutdown (conduct : Conduct C) (f : Fleet C) : Fleet C × List Deed :=
  let (teams, deeds) := stopTeams conduct f.teams
  ({ f with managed := [], retired := f.retired ++ teams }, deeds)

/-- Who gets a push, in order: every member of every managed team. -/
def audience (f : Fleet C) : List (String × Member C) :=
  f.teams.flatMap fun t => t.members.map (t.namespaceName, ·)

/-- Gives a push to everybody who gets it; `receive` tells what a member does with it. -/
def dispatch (receive : String → Member C → Image.Push → List Deed) (push : Image.Push)
    (f : Fleet C) : List Deed :=
  f.audience.flatMap fun (n, m) => receive n m push

/-- Continues the runs of all teams, managed or not, until the deadline. -/
def settle (conduct : Conduct C) (now deadline : Nat) (f : Fleet C) : Fleet C × List Deed :=
  let managed := f.managed.map fun (n, t) => (n, t.settle conduct f.stopped now deadline)
  let retired := f.retired.map (·.settle conduct f.stopped now deadline)
  ({ f with managed := managed.map fun (n, t) => (n, t.1), retired := retired.map (·.1) },
    managed.flatMap (·.2.2) ++ retired.flatMap (·.2))

end Fleet

end ImageRollout.Controllers
