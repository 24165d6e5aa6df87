import ImageRollout.Kubernetes.ConfigMap
import ImageRollout.Table
import ImageRollout.Watch.Event

/-!
# Known namespaces

A watch reports objects; what is wanted are changes.  The tracker remembers every namespace it has
seen, so it can tell a new one from one that changed, and at the end of a list it knows which ones
have vanished.
-/

namespace ImageRollout.Namespaces

open Kubernetes Watch

/-- What happened to a namespace. -/
inductive Change where
  | added
  | modified
  | deleted
  deriving DecidableEq, Repr

/-- A change and the namespace as it was last seen. -/
structure Notification where
  change : Change
  object : Namespace

/-- The namespaces seen so far, and those seen in the list that is under way. -/
structure Tracker where
  known : Table Namespace := []
  relisted : Option (List String) := none

namespace Tracker

/-- Remembers an object, and tells whether its name is new. -/
def remember (t : Tracker) (object : Namespace) : Tracker × Notification :=
  let change := if t.known.has object.name then Change.modified else .added
  ({ t with known := t.known.insert object.name object }, { change, object })

/-- Notes that a list holds the name, if one is under way. -/
def noteListed (t : Tracker) (name : String) : Tracker :=
  { t with relisted := t.relisted.map (name :: ·) }

/-- The changes that an event amounts to. -/
def observe (t : Tracker) : Event Namespace → Tracker × List Notification
  | .listing => ({ t with relisted := some [] }, [])
  | .listed object =>
    let (t, notification) := (t.noteListed object.name).remember object
    (t, [notification])
  | .listEnd =>
    match t.relisted with
    | none => (t, [])
    | some names =>
      let (kept, gone) := t.known.partition (·.1 ∈ names)
      ({ known := kept, relisted := none },
        gone.map fun (_, object) => { change := .deleted, object })
  | .applied object =>
    let (t, notification) := t.remember object
    (t, [notification])
  | .deleted object =>
    ({ t with known := t.known.erase object.name }, [{ change := .deleted, object }])

end Tracker

end ImageRollout.Namespaces
