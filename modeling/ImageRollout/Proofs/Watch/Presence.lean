import Mathlib.Data.List.Induction
import ImageRollout.Proofs.Sequences
import ImageRollout.Watch.Cache

/-!
# What a cache has, read off the history

A history of a watch *lists* a name when the list under way has shown it.  It *loses* a name when it
deletes the name, or when it ends a list that has not shown it.  Whether a cache has an object can
be told from this alone.

* `isSome_incoming_iff`: the list under way.
* `isSome_get?_of_keeps`: what is not lost stays in the cache.
* `isSome_get?_of_firstHolds`: what the first list held, and was not lost since.
-/

namespace ImageRollout.Watch

/-- The event belongs to a list. -/
def Event.IsOfList {α : Type} : Event α → Prop
  | listing | listed _ | listEnd => True
  | applied _ | deleted _ => False

namespace Cache

variable {α : Type} {name : α → String} {key : String}

/-- The cache after a run of events. -/
def follow (name : α → String) (es : List (Event α)) (c : Cache α) : Cache α :=
  es.foldl (observe name) c

/-- The list that is under way at the end of a history has shown the name. -/
def Lists (name : α → String) (past : List (Event α)) (key : String) : Prop :=
  ∃ before o after, past = before ++ .listed o :: after ∧ name o = key ∧
    ∀ e ∈ after, e.object?.isSome

/-- An event after a history loses a name: it deletes the name, or it ends a list without it. -/
def Loses (name : α → String) (past : List (Event α)) (key : String) : Event α → Prop
  | .deleted o => name o = key
  | .listEnd => ¬ Lists name past key
  | .listing | .listed _ | .applied _ => False

/-- No event of a run that goes on from a history loses the name. -/
def Keeps (name : α → String) (past : List (Event α)) (key : String) : List (Event α) → Prop
  | [] => True
  | e :: rest => ¬ Loses name past key e ∧ Keeps name (past ++ [e]) key rest

/-- The first list that a history completes holds the name. -/
def FirstHolds (name : α → String) (past : List (Event α)) (key : String) : Prop :=
  ∃ before after,
    past = before ++ .listEnd :: after ∧ .listEnd ∉ before ∧ Lists name before key

/-- Since the first list that a history completes, if there is one, it has not lost the name. -/
def KeptSinceFirst (name : α → String) (past : List (Event α)) (key : String) : Prop :=
  ∀ before after, past = before ++ .listEnd :: after → .listEnd ∉ before →
    Keeps name (before ++ [.listEnd]) key after

section History

variable {past : List (Event α)} {e : Event α}

theorem follow_concat (c : Cache α) :
    follow name (past ++ [e]) c = (follow name past c).observe name e := by
  simp [follow]

/-- What a list holds once one more object was shown. -/
theorem lists_concat (he : e.object?.isSome) :
    Lists name (past ++ [e]) key ↔
      (∃ o, e = .listed o ∧ name o = key) ∨ Lists name past key := by
  constructor
  · rintro ⟨before, o, after, hpast, hname, hobjects⟩
    rcases split_concat hpast with ⟨-, rfl, -⟩ | ⟨others, rfl, rfl⟩
    · exact .inl ⟨o, rfl, hname⟩
    · exact .inr ⟨before, o, others, rfl, hname, fun e' he' => hobjects e' (by simp [he'])⟩
  · rintro (⟨o, rfl, hname⟩ | ⟨before, o, after, rfl, hname, hobjects⟩)
    · exact ⟨past, o, [], rfl, hname, by simp⟩
    · refine ⟨before, o, after ++ [e], by simp, hname, fun e' he' => ?_⟩
      rcases List.mem_append.1 he' with hmem | hmem
      · exact hobjects e' hmem
      · rw [List.mem_singleton.1 hmem]
        exact he

/-- No list has shown anything where one has just begun, or ended. -/
theorem not_lists_concat (he : e.object? = none) : ¬ Lists name (past ++ [e]) key := by
  rintro ⟨before, o, after, hpast, -, hobjects⟩
  rcases split_concat hpast with ⟨-, rfl, -⟩ | ⟨others, rfl, -⟩
  · cases he
  · have hobject := hobjects e (by simp)
    rw [he] at hobject
    cases hobject

end History

theorem synced_follow (past : List (Event α)) :
    (follow name past {}).synced = true ↔ .listEnd ∈ past := by
  induction past using List.reverseRecOn with
  | nil => simp [follow]
  | append_singleton past e ih =>
      rw [follow_concat]
      cases e with
      | listEnd => simp [observe]
      | listing | listed | applied | deleted => simpa [observe] using ih

/-- **What the list under way has shown** is in the cache as incoming. -/
theorem isSome_incoming_iff (past : List (Event α)) :
    (List.lookup key (follow name past {}).incoming).isSome ↔ Lists name past key := by
  induction past using List.reverseRecOn with
  | nil => simp [follow, Lists]
  | append_singleton past e ih =>
      rw [follow_concat]
      cases e with
      | listing | listEnd => simpa [observe] using not_lists_concat rfl
      | applied o | deleted o => rw [lists_concat rfl, ← ih]; simp [observe]
      | listed o =>
          rw [lists_concat rfl, ← ih, observe, Table.lookup_insert]
          by_cases hkey : key = name o
          · simp [hkey]
          · simp [hkey, Ne.symm hkey]

/-- **What is not lost stays in the cache.** -/
theorem isSome_get?_of_keeps {past es : List (Event α)}
    (h : ((follow name past {}).get? key).isSome) (hkept : Keeps name past key es) :
    ((follow name (past ++ es) {}).get? key).isSome := by
  induction es generalizing past with
  | nil => rwa [List.append_nil]
  | cons e rest ih =>
      obtain ⟨hstays, hlater⟩ := hkept
      rw [List.append_cons]
      refine ih ?_ hlater
      rw [follow_concat]
      cases e with
      | listing | listed => exact h
      | listEnd => exact (isSome_incoming_iff past).2 (Classical.not_not.1 hstays)
      | applied o =>
          rw [get?, observe, Table.lookup_insert]
          split
          · rfl
          · exact h
      | deleted o =>
          rw [get?, observe, Table.lookup_erase, if_neg (Ne.symm hstays)]
          exact h

/-- **What the first list held is in the cache** from the end of that list on, until it is lost. -/
theorem isSome_get?_of_firstHolds {past later : List (Event α)}
    (hfirst : FirstHolds name (past ++ later) key) (hlisted : .listEnd ∈ past)
    (hkept : KeptSinceFirst name past key) : ((follow name past {}).get? key).isSome := by
  obtain ⟨before, after, rfl, hbefore⟩ := List.eq_append_cons_of_mem hlisted
  obtain ⟨before', after', hpast, hbefore', hlists⟩ := hfirst
  rw [List.append_assoc, List.cons_append] at hpast
  -- What follows later does not change which list was the first.
  obtain rfl := eq_of_first hpast hbefore hbefore'
  rw [List.append_cons]
  refine isSome_get?_of_keeps ?_ (hkept before after rfl hbefore)
  rw [follow_concat]
  exact (isSome_incoming_iff before).2 hlists

end Cache

end ImageRollout.Watch
