import ImageRollout.Namespaces.Tracker

/-!
# What a tracker knows

The namespaces that a tracker knows, look-up by look-up, after one event and after a run of events.

* `lookup_known_observe`: the effect of one event on what is known of a name.
* `wellKept_follow`: every object stands under its own name, and no name stands twice.
* `eq_singleton_of_added`: a new namespace is reported alone, and was not known.
* `listed_of_known_after_list`: after a complete list nothing is known that it did not hold.
-/

namespace ImageRollout.Namespaces.Tracker

open Kubernetes Watch

/-- The tracker after a run of events. -/
def follow (es : List (Event Namespace)) (t : Tracker) : Tracker :=
  es.foldl (fun t e => (t.observe e).1) t

theorem follow_append (es later : List (Event Namespace)) (t : Tracker) :
    t.follow (es ++ later) = (t.follow es).follow later :=
  List.foldl_append

/-- What an event leaves of what was known of a name. -/
def knownAfter (t : Tracker) (name : String) : Event Namespace → Option Namespace
  | .listing => t.known.lookup name
  | .listed object | .applied object =>
    if name = object.name then some object else t.known.lookup name
  | .listEnd =>
    if t.relisted.all (name ∈ ·) then t.known.lookup name else none
  | .deleted object => if name = object.name then none else t.known.lookup name

/-- The end of a list keeps the listed names. -/
theorem known_listEnd (t : Tracker) :
    (t.observe .listEnd).1.known = t.known.filter fun e => t.relisted.all (e.1 ∈ ·) := by
  cases h : t.relisted with
  | none =>
      have hall : t.known.filter (fun _ => true) = t.known := List.filter_eq_self.2 fun _ _ => rfl
      simp only [observe, h, Option.all_none, hall]
  | some names => simp [observe, h, List.partition_eq_filter_filter]

theorem lookup_known_observe (t : Tracker) (e : Event Namespace) (name : String) :
    List.lookup name (t.observe e).1.known = t.knownAfter name e := by
  cases e with
  | listing => rfl
  | listed object => exact Table.lookup_insert object.name name object t.known
  | applied object => exact Table.lookup_insert object.name name object t.known
  | deleted object => exact Table.lookup_erase object.name name t.known
  | listEnd =>
      rw [known_listEnd, Table.lookup_filter fun k => t.relisted.all (k ∈ ·)]
      rfl

/-- A tracker whose entries stand under the names of their objects, no name twice. -/
structure WellKept (t : Tracker) : Prop where
  nodup : t.known.names.Nodup
  keyed : ∀ e ∈ t.known, e.2.name = e.1

theorem wellKept_empty : WellKept {} where
  nodup := List.nodup_nil
  keyed := by simp

theorem wellKept_insert {t : Tracker} (h : t.WellKept) (object : Namespace)
    (relisted : Option (List String)) :
    WellKept { known := t.known.insert object.name object, relisted } where
  nodup := Table.nodup_insert h.nodup
  keyed := by
    intro e he
    rcases List.mem_cons.1 he with rfl | hrest
    · rfl
    · exact h.keyed e ((List.mem_filter.1 hrest).1)

theorem wellKept_filter {t : Tracker} (h : t.WellKept) (keeps : String × Namespace → Bool)
    (relisted : Option (List String)) :
    WellKept { known := t.known.filter keeps, relisted } where
  nodup := Table.nodup_filter h.nodup
  keyed := fun e he => h.keyed e ((List.mem_filter.1 he).1)

theorem wellKept_observe {t : Tracker} (h : t.WellKept) (e : Event Namespace) :
    (t.observe e).1.WellKept := by
  cases e with
  | listing => exact ⟨h.nodup, h.keyed⟩
  | listed object => exact wellKept_insert h object _
  | applied object => exact wellKept_insert h object _
  | deleted object => exact wellKept_filter h _ _
  | listEnd =>
      obtain ⟨hnodup, hkeyed⟩ := wellKept_filter h (fun e => t.relisted.all (e.1 ∈ ·)) none
      exact ⟨known_listEnd t ▸ hnodup, known_listEnd t ▸ hkeyed⟩

theorem wellKept_follow {t : Tracker} (h : t.WellKept) (es : List (Event Namespace)) :
    (t.follow es).WellKept := by
  induction es generalizing t with
  | nil => exact h
  | cons e rest ih => exact ih (wellKept_observe h e)

/-- A known object stands under its own name. -/
theorem name_of_lookup {t : Tracker} (h : t.WellKept) {name : String} {object : Namespace}
    (hlookup : List.lookup name t.known = some object) : object.name = name :=
  h.keyed _ (Table.mem_of_lookup hlookup)

/-- A namespace reported as new is the only one reported, and was not known. -/
theorem eq_singleton_of_added {t : Tracker} {e : Event Namespace} {note : Notification}
    (h : note ∈ (t.observe e).2) (hadded : note.change = .added) :
    (t.observe e).2 = [note] ∧ t.known.has note.object.name = false := by
  have hremembered (t' : Tracker) (object : Namespace) (hknown : t'.known = t.known)
      (hnote : note = (t'.remember object).2) : t.known.has note.object.name = false := by
    subst hnote
    cases hhas : t'.known.has object.name with
    | true => simp [remember, hhas] at hadded
    | false => exact hknown ▸ hhas
  cases e with
  | listing => cases h
  | listed object =>
      have hnote := List.mem_singleton.1 h
      exact ⟨hnote ▸ rfl, hremembered _ object rfl hnote⟩
  | applied object =>
      have hnote := List.mem_singleton.1 h
      exact ⟨hnote ▸ rfl, hremembered _ object rfl hnote⟩
  | deleted object =>
      rw [List.mem_singleton.1 h] at hadded
      cases hadded
  | listEnd => cases hlist : t.relisted <;> grind [observe]

/-- The end of a list reports nothing but deletions. -/
theorem change_of_mem_listEnd {t : Tracker} {note : Notification}
    (h : note ∈ (t.observe .listEnd).2) : note.change = .deleted := by
  cases hlist : t.relisted <;> grind [observe]

/-- While objects are reported, the names noted for a list are those that are listed. -/
theorem mem_relisted_follow {es : List (Event Namespace)} (hes : ∀ e ∈ es, e.object?.isSome)
    {t : Tracker} {names : List String} (h : t.relisted = some names) :
    ∃ later, (t.follow es).relisted = some later ∧
      ∀ name, name ∈ later ↔
        name ∈ names ∨ ∃ object, .listed object ∈ es ∧ object.name = name := by
  induction es generalizing t names with
  | nil => exact ⟨names, h, by simp⟩
  | cons e rest ih =>
      have hrest : ∀ e ∈ rest, e.object?.isSome := fun e he => hes e (List.mem_cons_of_mem _ he)
      have hobject := hes e List.mem_cons_self
      cases e with
      | listing => cases hobject
      | listEnd => cases hobject
      | listed object =>
          have hnoted : (t.observe (.listed object)).1.relisted = some (object.name :: names) := by
            simp [observe, noteListed, remember, h]
          obtain ⟨later, hlater, hmem⟩ := ih hrest hnoted
          refine ⟨later, hlater, fun name => ?_⟩
          rw [hmem]
          grind
      | applied object =>
          obtain ⟨later, hlater, hmem⟩ := ih hrest (t := (t.observe (.applied object)).1) h
          refine ⟨later, hlater, fun name => ?_⟩
          rw [hmem]
          grind
      | deleted object =>
          obtain ⟨later, hlater, hmem⟩ := ih hrest (t := (t.observe (.deleted object)).1) h
          refine ⟨later, hlater, fun name => ?_⟩
          rw [hmem]
          grind

/-- **A complete list is exhaustive.**  What is known when it ends was listed in it, whatever else
was reported while it was under way. -/
theorem listed_of_known_after_list (t : Tracker) {during : List (Event Namespace)}
    (hduring : ∀ e ∈ during, e.object?.isSome) {name : String}
    (h : (List.lookup name (t.follow (.listing :: during ++ [.listEnd])).known).isSome) :
    ∃ object, .listed object ∈ during ∧ object.name = name := by
  have hbegun : (t.observe .listing).1.relisted = some [] := rfl
  obtain ⟨names, hnames, hmem⟩ := mem_relisted_follow hduring hbegun
  have hend : t.follow (.listing :: during ++ [.listEnd]) =
      (((t.observe .listing).1.follow during).observe .listEnd).1 := by
    rw [follow_append]
    rfl
  rw [hend, lookup_known_observe, knownAfter, hnames] at h
  by_cases hlisted : name ∈ names
  · simpa using (hmem name).1 hlisted
  · simp [hlisted] at h

end ImageRollout.Namespaces.Tracker
