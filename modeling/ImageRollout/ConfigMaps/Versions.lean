import ImageRollout.Kubernetes.ConfigMap
import ImageRollout.Table
import ImageRollout.Watch.Event

/-!
# Versions of config maps

A watch repeats objects that have not changed.  By remembering the last version of every config
map, changes are told from repetitions: a config map has changed when it was known under another
version.  What a list shows before the first list was complete is no change.
-/

namespace ImageRollout.ConfigMaps

open Kubernetes Watch

/-- The versions seen so far, the names in the list that is under way, and whether a list was ever
complete. -/
structure Versions where
  known : Table (Option String) := []
  relisted : Option (List String) := none
  synced : Bool := false

namespace Versions

/-- Remembers a version, and tells whether the config map was known under another one. -/
def record (v : Versions) (c : ConfigMap) : Versions × Bool :=
  let changed := match v.known.lookup c.name with
    | some previous => previous ≠ c.version
    | none => false
  ({ v with known := v.known.insert c.name c.version }, changed)

/-- Notes that a list holds the name, if one is under way. -/
def noteListed (v : Versions) (name : String) : Versions :=
  { v with relisted := v.relisted.map (name :: ·) }

/-- The config map that an event shows to have changed. -/
def observe (v : Versions) : Event ConfigMap → Versions × Option ConfigMap
  | .listing => ({ v with relisted := some [] }, none)
  | .listed c =>
    let (v, changed) := (v.noteListed c.name).record c
    (v, if v.synced && changed then some c else none)
  | .listEnd =>
    let known := match v.relisted with
      | some names => v.known.filter (·.1 ∈ names)
      | none => v.known
    ({ known, relisted := none, synced := true }, none)
  | .applied c =>
    let (v, changed) := v.record c
    (v, if changed then some c else none)
  | .deleted c => ({ v with known := v.known.erase c.name }, none)

end Versions

end ImageRollout.ConfigMaps
