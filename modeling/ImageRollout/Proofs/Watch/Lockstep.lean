import ImageRollout.Proofs.ConfigMaps.History
import ImageRollout.Proofs.Namespaces.Knowledge

/-!
# Two records of one watch

Namespaces and config maps are watched apart, and what is remembered of them is different: of a
namespace the whole object, of a config map its version.  Of which names something is remembered is
decided by one rule, which sees nothing of an event but the name of its object.  So two watches that
show objects of the same names never get out of step.

* `Event.leavesKnown`, `Event.leavesListed`: the rule.
* `Tracker.has_observe`, `Versions.has_observe`: both records keep to it.
* `InStep.observe`, `InStep.follow`: they stay in step, event by event and over every run.
* `Tracker.mem_gone_iff`: what is reported as vanished is what is forgotten.
* `watched_in_step`: the names known, reported and forgotten are the same after every run.
-/

namespace ImageRollout.Watch

open ConfigMaps Kubernetes Namespaces

namespace Event

/-- Whether an event leaves a name known, given whether it was known and what has been listed. -/
def leavesKnown (name : String) (known : Bool) (relisted : Option (List String)) :
    Event String → Bool
  | listing => known
  | listed shown | applied shown => name = shown || known
  | listEnd => relisted.all (name ∈ ·) && known
  | deleted lost => name ≠ lost && known

/-- What an event leaves of the names in the list that is under way. -/
def leavesListed (relisted : Option (List String)) : Event String → Option (List String)
  | listing => some []
  | listed shown => relisted.map (shown :: ·)
  | listEnd => none
  | applied _ | deleted _ => relisted

end Event

end ImageRollout.Watch

namespace ImageRollout.Namespaces.Tracker

open Kubernetes Watch

theorem has_observe (t : Tracker) (e : Event Namespace) (name : String) :
    (t.observe e).1.known.has name =
      (e.map Namespace.name).leavesKnown name (t.known.has name) t.relisted := by
  rw [Table.has, lookup_known_observe, Table.has]
  cases e <;> simp [knownAfter, Event.map, Event.leavesKnown, apply_ite Option.isSome]

theorem relisted_observe (t : Tracker) (e : Event Namespace) :
    (t.observe e).1.relisted = (e.map Namespace.name).leavesListed t.relisted := by
  cases e with
  | listing | listed | applied | deleted => rfl
  | listEnd => cases hlist : t.relisted <;> simp [observe, Event.map, Event.leavesListed, hlist]

/-- An object that is shown is reported alone, as modified exactly if its name was known. -/
theorem notes_of_shown (t : Tracker) {e : Event Namespace} {object : Namespace}
    (h : e.shown? = some object) :
    (t.observe e).2 =
      [{ change := if t.known.has object.name then .modified else .added, object }] := by
  cases e with
  | listed | applied =>
      cases h
      rfl
  | listing | listEnd | deleted => cases h

/-- The end of a list reports what the list has left out. -/
theorem notes_listEnd (t : Tracker) :
    (t.observe .listEnd).2 =
      (t.known.filter fun e => !t.relisted.all (e.1 ∈ ·)).map fun e =>
        { change := .deleted, object := e.2 } := by
  cases hlist : t.relisted with
  | none => simp [observe, hlist]
  | some names => simp [observe, hlist, List.partition_eq_filter_filter, Function.comp_def]

/-- The names that the end of a list reports as vanished. -/
def gone (t : Tracker) : List String := (t.observe .listEnd).2.map (·.object.name)

theorem gone_eq {t : Tracker} (h : t.WellKept) :
    t.gone = Table.names (t.known.filter fun e => !t.relisted.all (e.1 ∈ ·)) := by
  rw [gone, notes_listEnd, List.map_map]
  exact List.map_congr_left fun e he => h.keyed e (List.mem_filter.1 he).1

theorem nodup_gone {t : Tracker} (h : t.WellKept) : t.gone.Nodup :=
  gone_eq h ▸ Table.nodup_filter h.nodup

/-- **What is reported as vanished** at the end of a list was known and is not known any more. -/
theorem mem_gone_iff {t : Tracker} (h : t.WellKept) (name : String) :
    name ∈ t.gone ↔
      t.known.has name = true ∧ (t.observe .listEnd).1.known.has name = false := by
  rw [gone_eq h, ← Table.has_eq_true_iff, has_observe, Table.has,
    Table.lookup_filter fun k => !t.relisted.all (k ∈ ·), Table.has]
  cases hlisted : t.relisted.all (name ∈ ·) <;>
    simp [Event.map, Event.leavesKnown, hlisted]

end ImageRollout.Namespaces.Tracker

namespace ImageRollout.ConfigMaps.Versions

open Kubernetes Watch

theorem has_observe (v : Versions) (e : Event ConfigMap) (name : String) :
    (v.observe e).1.known.has name =
      (e.map ConfigMap.name).leavesKnown name (v.known.has name) v.relisted := by
  rw [Table.has, lookup_known_observe, Table.has]
  cases e <;> simp [knownAfter, Event.map, Event.leavesKnown, apply_ite Option.isSome]

theorem relisted_observe (v : Versions) (e : Event ConfigMap) :
    (v.observe e).1.relisted = (e.map ConfigMap.name).leavesListed v.relisted := by
  cases e <;> rfl

end ImageRollout.ConfigMaps.Versions

namespace ImageRollout.Watch

open ConfigMaps Kubernetes Namespaces

/-- A tracker of namespaces and a record of versions that know the same names, and have the same
names in the list that is under way. -/
structure InStep (t : Tracker) (v : Versions) : Prop where
  known : ∀ name, t.known.has name = v.known.has name
  relisted : t.relisted = v.relisted

namespace InStep

variable {t : Tracker} {v : Versions}

/-- **Events about one name keep both in step.** -/
theorem observe (h : InStep t v) {e : Event Namespace} {f : Event ConfigMap}
    (hsame : e.map Namespace.name = f.map ConfigMap.name) :
    InStep (t.observe e).1 (v.observe f).1 where
  known := fun name => by
    rw [Tracker.has_observe, Versions.has_observe, hsame, h.known, h.relisted]
  relisted := by
    rw [Tracker.relisted_observe, Versions.relisted_observe, hsame, h.relisted]

/-- **Runs over the same names keep both in step.** -/
theorem follow (h : InStep t v) {es : List (Event Namespace)} {fs : List (Event ConfigMap)}
    (hsame : es.map (Event.map Namespace.name) = fs.map (Event.map ConfigMap.name)) :
    InStep (t.follow es) (v.follow fs) := by
  induction es generalizing t v fs with
  | nil =>
      obtain rfl : fs = [] := List.map_eq_nil_iff.1 hsame.symm
      exact h
  | cons e rest ih =>
      cases fs with
      | nil => cases hsame
      | cons f rest' =>
          obtain ⟨hfirst, hrest⟩ := List.cons.inj hsame
          exact ih (h.observe hfirst) hrest

end InStep

/-- **One protocol, followed twice.**  Let namespaces and config maps of the same names be watched
in parallel, whatever the events and wherever lists break off.  At every moment both know the same
names and have the same names in the list that is under way.  A namespace that is shown is reported
as modified exactly if there is a version under its name, and as added if there is none.  The end of
a list reports exactly the names whose versions are forgotten at it, each of them once. -/
theorem watched_in_step {es : List (Event Namespace)} {fs : List (Event ConfigMap)}
    (hsame : es.map (Event.map Namespace.name) = fs.map (Event.map ConfigMap.name)) :
    let t := Tracker.follow es {}
    let v := Versions.follow fs {}
    (∀ name, t.known.has name = v.known.has name) ∧
    t.relisted = v.relisted ∧
    (∀ e object, e.shown? = some object → (t.observe e).2 =
      [{ change := if v.known.has object.name then .modified else .added, object }]) ∧
    (∀ note ∈ (t.observe .listEnd).2, note.change = .deleted) ∧
    ((t.observe .listEnd).2.map (·.object.name)).Nodup ∧
    ∀ name, name ∈ (t.observe .listEnd).2.map (·.object.name) ↔
      v.known.has name = true ∧ (v.observe .listEnd).1.known.has name = false := by
  intro t v
  have hstart : InStep {} {} := ⟨fun _ => rfl, rfl⟩
  have hstep : InStep t v := hstart.follow hsame
  have hend : InStep (t.observe .listEnd).1 (v.observe .listEnd).1 := hstep.observe rfl
  have hkept : t.WellKept := Tracker.wellKept_follow Tracker.wellKept_empty es
  refine ⟨hstep.known, hstep.relisted, fun e object hshown => ?_,
    fun _ => Tracker.change_of_mem_listEnd, Tracker.nodup_gone hkept, fun name => ?_⟩
  · rw [Tracker.notes_of_shown t hshown, hstep.known]
  · rw [← hstep.known, ← hend.known]
    exact Tracker.mem_gone_iff hkept name

/-- A list of two names, and then one that is broken off and begun again, which leaves `a` out. -/
def relistOfTwo : List (Event String) :=
  [.listing, .listed "a", .listed "b", .listEnd, .listing, .listed "a", .listing, .listed "b",
    .applied "c", .deleted "c"]

/-- Namespaces of the names. -/
def namespacesShown : List (Event Namespace) :=
  relistOfTwo.map (Event.map fun name => { metadata := { name := some name } })

/-- Config maps of the names. -/
def configMapsShown : List (Event ConfigMap) :=
  relistOfTwo.map (Event.map fun name => { metadata := { name := some name } })

/-- The name that the second list leaves out is forgotten at its end, since it is reported. -/
theorem watched_in_step_relist :
    namespacesShown.map (Event.map Namespace.name) =
        configMapsShown.map (Event.map ConfigMap.name) ∧
      ((Tracker.follow namespacesShown {}).observe .listEnd).2.map (·.object.name) = ["a"] ∧
      (Versions.follow configMapsShown {}).known.has "a" = true ∧
      ((Versions.follow configMapsShown {}).observe .listEnd).1.known.has "a" = false := by
  have hsame : namespacesShown.map (Event.map Namespace.name) =
      configMapsShown.map (Event.map ConfigMap.name) := rfl
  have hgone :
      ((Tracker.follow namespacesShown {}).observe .listEnd).2.map (·.object.name) = ["a"] := by
    decide
  obtain ⟨-, -, -, -, -, hforgotten⟩ := watched_in_step hsame
  exact ⟨hsame, hgone, (hforgotten "a").1 (hgone ▸ List.mem_singleton.2 rfl)⟩

end ImageRollout.Watch
