import Mathlib.Data.List.Induction
import ImageRollout.Proofs.Fleet.Transition
import ImageRollout.Proofs.Namespaces.Knowledge

/-!
# The fleet follows the tracker

A watch on namespaces feeds the tracker, and every notification of the tracker is handed to the
fleet at once.  The namespaces that a list leaves out are reported in no particular order, so a
step hands them over in any.

The invariant that carries all else is `Oversight.Agrees`: a namespace is managed exactly if the
tracker knows it and the object that it knows is enabled.

* `agrees_step`, `agrees_run`: the invariant is kept by every event, so it holds after every run.
* `managed_iff_known_enabled`: the invariant and what follows for new, deleted, disabled and
  vanished namespaces.
-/

namespace ImageRollout.Controllers

open Kubernetes Namespaces Watch

variable {C : Type}

/-- The tracker of a watch on namespaces and the fleet that its notifications steer. -/
structure Oversight (C : Type) where
  tracker : Tracker := {}
  fleet : Fleet C := {}

namespace Oversight

variable (conduct : Conduct C) (registry : Registry (String → Except String C))

/-- One event: its notifications are handed over in some order. -/
inductive Step (e : Event Namespace) : Oversight C → Oversight C → Prop
  | hand {o : Oversight C} {notes : List Notification}
      (hnotes : notes.Perm (o.tracker.observe e).2) :
      Step e o
        { tracker := (o.tracker.observe e).1, fleet := o.fleet.syncAll conduct registry notes }

/-- What comes of a run of events from the start. -/
inductive Run : List (Event Namespace) → Oversight C → Prop
  | start : Run [] {}
  | next {es : List (Event Namespace)} {e : Event Namespace} {o o' : Oversight C}
      (hrun : Run es o) (hstep : Step conduct registry e o o') : Run (es ++ [e]) o'

/-- A namespace is managed exactly if it is known and enabled as far as is known. -/
structure Agrees (o : Oversight C) : Prop where
  wellKept : o.tracker.WellKept
  managed : ∀ n, o.fleet.managed.has n = (List.lookup n o.tracker.known).any isEnabled

/-- A run of events in which `order` puts the notifications of every event in order. -/
def handAll (order : List Notification → List Notification) (es : List (Event Namespace)) :
    Oversight C :=
  es.foldl
    (fun o e =>
      { tracker := (o.tracker.observe e).1
        fleet := o.fleet.syncAll conduct registry (order (o.tracker.observe e).2) })
    {}

variable {conduct registry}

/-- Every sequence of events has a run, whatever the order of notifications. -/
theorem run_handAll {order : List Notification → List Notification}
    (horder : ∀ notes, (order notes).Perm notes) (es : List (Event Namespace)) :
    Run conduct registry es (handAll conduct registry order es) := by
  induction es using List.reverseRecOn with
  | nil => exact .start
  | append_singleton past e ih =>
      rw [handAll, List.foldl_append]
      exact .next ih (.hand (horder _))

/-- The tracker does not depend on the order in which notifications are handed over. -/
theorem tracker_eq_follow {es : List (Event Namespace)} {o : Oversight C}
    (h : Run conduct registry es o) : o.tracker = Tracker.follow es {} := by
  induction h with
  | start => rfl
  | next hrun hstep ih =>
      cases hstep with
      | hand hnotes => rw [Tracker.follow_append, ← ih]; rfl

/-- Remembering an object and telling the fleet of it keeps both in step. -/
theorem managed_after_remember (hreg : registry.NeverFails) {o : Oversight C} (h : o.Agrees)
    (object : Namespace) (t : Tracker) (hknown : t.known = o.tracker.known) (n : String) :
    (o.fleet.sync conduct registry (t.remember object).2).1.managed.has n =
      (if n = object.name then some object else List.lookup n o.tracker.known).any isEnabled := by
  have hobject : (t.remember object).2.object = object := rfl
  rw [Fleet.has_sync conduct registry hreg, hobject]
  by_cases hn : n = object.name
  · rw [if_pos hn, if_pos hn, hn, h.managed]
    cases hlookup : List.lookup object.name o.tracker.known <;>
      simp [managedAfter, Tracker.remember, Table.has, hknown, hlookup]
  · rw [if_neg hn, if_neg hn, h.managed]

/-- What a list leaves out is exactly what its end reports. -/
theorem any_gone_iff {t : Tracker} (h : t.WellKept) (n : String) :
    (t.observe .listEnd).2.any (·.object.name = n) =
      ((List.lookup n t.known).isSome && !t.relisted.all (n ∈ ·)) := by
  cases hlist : t.relisted with
  | none => simp [Tracker.observe, hlist]
  | some names =>
      rw [Bool.eq_iff_iff]
      simp only [Tracker.observe, hlist, List.partition_eq_filter_filter, List.any_eq_true,
        List.mem_map, List.mem_filter, Bool.and_eq_true, decide_eq_true_eq, Option.all_some,
        Bool.not_eq_true', decide_eq_false_iff_not]
      constructor
      · rintro ⟨note, ⟨e, ⟨hmem, hgone⟩, rfl⟩, hname⟩
        have hkey : e.1 = n := (h.keyed e hmem).symm.trans hname
        have hfound := Table.lookup_of_mem h.nodup (show (e.1, e.2) ∈ t.known from hmem)
        rw [hkey] at hfound
        exact ⟨by simp [hfound], by simpa [hkey] using hgone⟩
      · rintro ⟨hsome, hgone⟩
        obtain ⟨object, hobject⟩ := Option.isSome_iff_exists.1 hsome
        exact ⟨_, ⟨(n, object), ⟨Table.mem_of_lookup hobject, by simpa using hgone⟩, rfl⟩,
          Tracker.name_of_lookup h hobject⟩

/-- At the end of a list exactly the namespaces that it left out are taken out, in any order. -/
theorem has_after_listEnd {o : Oversight C} (h : o.tracker.WellKept) {notes : List Notification}
    (hnotes : notes.Perm (o.tracker.observe .listEnd).2) (n : String) :
    (o.fleet.syncAll conduct registry notes).managed.has n =
      (o.fleet.managed.has n &&
        !((List.lookup n o.tracker.known).isSome && !o.tracker.relisted.all (n ∈ ·))) := by
  have hdeleted : ∀ note ∈ notes, note.change = .deleted := by
    intro note hmem
    exact Tracker.change_of_mem_listEnd (hnotes.mem_iff.1 hmem)
  rw [Fleet.has_syncAll_of_deleted conduct registry hdeleted, hnotes.any_eq, any_gone_iff h]

/-- **Every event keeps the fleet in step with the tracker**, in whatever order the namespaces
that have vanished are reported. -/
theorem agrees_step (hreg : registry.NeverFails) {e : Event Namespace} {o o' : Oversight C}
    (h : o.Agrees) (hstep : Step conduct registry e o o') : o'.Agrees := by
  obtain ⟨hnotes⟩ := hstep
  rename_i notes
  refine ⟨Tracker.wellKept_observe h.wellKept e, fun n => ?_⟩
  change (o.fleet.syncAll conduct registry notes).managed.has n = _
  rw [Tracker.lookup_known_observe]
  cases e with
  | listing =>
      have : notes = [] := hnotes.eq_nil
      rw [this]
      exact h.managed n
  | listed object =>
      have : notes = [((o.tracker.noteListed object.name).remember object).2] :=
        List.perm_singleton.1 hnotes
      rw [this]
      exact managed_after_remember hreg h object _ rfl n
  | applied object =>
      have : notes = [(o.tracker.remember object).2] := List.perm_singleton.1 hnotes
      rw [this]
      exact managed_after_remember hreg h object _ rfl n
  | deleted object =>
      have : notes = [{ change := .deleted, object }] := List.perm_singleton.1 hnotes
      rw [this]
      change (o.fleet.sync conduct registry _).1.managed.has n = _
      rw [Fleet.has_sync conduct registry hreg, h.managed, Tracker.knownAfter]
      by_cases hn : n = object.name <;> simp [hn, managedAfter]
  | listEnd =>
      rw [has_after_listEnd h.wellKept hnotes, h.managed, Tracker.knownAfter]
      cases hlookup : List.lookup n o.tracker.known <;> grind

/-- The fleet is in step with the tracker after every run of events. -/
theorem agrees_run (hreg : registry.NeverFails) {es : List (Event Namespace)} {o : Oversight C}
    (h : Run conduct registry es o) : o.Agrees := by
  induction h with
  | start => exact ⟨Tracker.wellKept_empty, fun n => rfl⟩
  | next _ hstep ih => exact agrees_step hreg ih hstep

/-- An event reports a namespace as new only if it is not managed. -/
theorem unmanaged_of_added {o : Oversight C} (h : o.Agrees) {e : Event Namespace}
    {before after : List Notification} {note : Notification}
    (hnotes : (before ++ note :: after).Perm (o.tracker.observe e).2)
    (hadded : note.change = .added) :
    (o.fleet.syncAll conduct registry before).managed.has note.object.name = false := by
  have hmem : note ∈ (o.tracker.observe e).2 := hnotes.mem_iff.1 (by simp)
  obtain ⟨halone, hunknown⟩ := Tracker.eq_singleton_of_added hmem hadded
  rw [halone] at hnotes
  have hbefore : before = [] := by
    have := hnotes.length_eq
    simp only [List.length_append, List.length_cons, List.length_nil] at this
    exact List.length_eq_zero_iff.1 (by omega)
  rw [hbefore]
  change o.fleet.managed.has note.object.name = false
  rw [h.managed]
  cases hlookup : List.lookup note.object.name o.tracker.known with
  | none => rfl
  | some object => simp [Table.has, hlookup] at hunknown

/-- **The managed namespaces are the known and enabled ones.**  Let makers never fail, and hand
every event of a watch to the tracker and each of its notifications to the fleet, those of a list's
end in any order.  After every run of events a namespace is managed exactly if the tracker knows it
and the object last remembered for it is enabled.  So a namespace is reported as new only while it
is not managed, and none is managed once its object was deleted or applied without the label, or
once a complete list did not hold it. -/
theorem managed_iff_known_enabled (hreg : registry.NeverFails) {es : List (Event Namespace)}
    {o : Oversight C} (h : Run conduct registry es o) :
    (∀ n, o.fleet.managed.has n = true ↔
      ∃ object, List.lookup n o.tracker.known = some object ∧
        object.metadata.label? enableKey = some "true") ∧
    (∀ (e : Event Namespace) (before after : List Notification) (note : Notification),
      (before ++ note :: after).Perm (o.tracker.observe e).2 → note.change = .added →
      (o.fleet.syncAll conduct registry before).managed.has note.object.name = false) ∧
    (∀ past object, es = past ++ [.deleted object] →
      o.fleet.managed.has object.name = false) ∧
    (∀ past object, es = past ++ [.listed object] ∨ es = past ++ [.applied object] →
      object.metadata.label? enableKey ≠ some "true" →
      o.fleet.managed.has object.name = false) ∧
    (∀ past during n, es = past ++ (.listing :: during ++ [.listEnd]) →
      (∀ e ∈ during, e.object?.isSome) → o.fleet.managed.has n = true →
      ∃ object, .listed object ∈ during ∧ object.name = n) := by
  have hagrees := agrees_run hreg h
  have htracker := tracker_eq_follow h
  refine ⟨fun n => ?_, fun e before after note => unmanaged_of_added hagrees, ?_, ?_, ?_⟩
  · rw [hagrees.managed]
    cases List.lookup n o.tracker.known <;> simp [isEnabled]
  · rintro past object rfl
    rw [Tracker.follow_append] at htracker
    have hgone : List.lookup object.name o.tracker.known = none := by
      rw [htracker]
      change List.lookup object.name ((Tracker.follow past {}).observe _).1.known = none
      rw [Tracker.lookup_known_observe, Tracker.knownAfter, if_pos rfl]
    rw [hagrees.managed, hgone]
    rfl
  · intro past object hes hdisabled
    have hlast : List.lookup object.name o.tracker.known = some object := by
      rcases hes with rfl | rfl
      all_goals
        rw [htracker, Tracker.follow_append]
        change List.lookup object.name ((Tracker.follow past {}).observe _).1.known = some object
        rw [Tracker.lookup_known_observe, Tracker.knownAfter, if_pos rfl]
    rw [hagrees.managed, hlast]
    simpa [isEnabled] using hdisabled
  · rintro past during n rfl hduring hmanaged
    rw [Tracker.follow_append] at htracker
    apply Tracker.listed_of_known_after_list (Tracker.follow past {}) hduring
    rw [← htracker]
    rw [hagrees.managed] at hmanaged
    cases hlookup : List.lookup n o.tracker.known with
    | none => rw [hlookup] at hmanaged; cases hmanaged
    | some object => rfl

/-- A watch that has to list again, after which two of its namespaces are gone. -/
def relistedWatch : List (Event Namespace) :=
  [.listing, .listed (labelled "a" "true"), .listed (labelled "b" "true"), .listEnd,
    .applied (labelled "c" "true"), .listing, .listed (labelled "c" "true"), .listEnd]

/-- Reported in the opposite order, the two vanished namespaces are unmanaged all the same. -/
theorem managed_after_relist :
    twoKinds.NeverFails ∧
    (handAll Script.conduct twoKinds List.reverse relistedWatch).fleet.managed.has "c" = true ∧
    (handAll Script.conduct twoKinds List.reverse relistedWatch).fleet.managed.has "a" = false := by
  have hrun : Run Script.conduct twoKinds relistedWatch
      (handAll Script.conduct twoKinds List.reverse relistedWatch) :=
    run_handAll List.reverse_perm relistedWatch
  obtain ⟨hiff, -, -, -, hlist⟩ := managed_iff_known_enabled neverFails_twoKinds hrun
  refine ⟨neverFails_twoKinds, (hiff "c").2 ⟨labelled "c" "true", rfl, by decide⟩, ?_⟩
  refine Bool.eq_false_iff.2 fun ha => ?_
  obtain ⟨object, hlisted, hname⟩ := hlist (relistedWatch.take 5)
    [.listed (labelled "c" "true")] "a" rfl (by simp [Event.object?]) ha
  simp only [List.mem_singleton, Event.listed.injEq] at hlisted
  rw [hlisted] at hname
  exact absurd hname (by decide)

end Oversight

end ImageRollout.Controllers
