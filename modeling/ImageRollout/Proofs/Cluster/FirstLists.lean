import ImageRollout.Proofs.Cluster.Informers
import ImageRollout.Proofs.Watch.Presence

/-!
# Lists come before changes

An informer asks for a watch only once it has been given a list, and it hands out the list before it
asks.  So as long as its first list is not complete, it hands out events of lists only.

* `Informer.ListsFirst`: what is true of an informer until then.
* `Informer.listsFirst_move`: a move keeps to it.
* `Site.drive?_cases`: what a move can be.
-/

namespace ImageRollout.Cluster

open Watch

variable {α : Type}

/-- The events in which a list is handed out. -/
theorem isOfList_of_mem {objects : List α} {e : Event α}
    (h : e ∈ objects.map .listed ++ [.listEnd]) : e.IsOfList := by
  rcases List.mem_append.1 h with hmem | hmem
  · obtain ⟨o, -, rfl⟩ := List.mem_map.1 hmem
    trivial
  · rw [List.mem_singleton.1 hmem]
    trivial

/-- The link is not past its first list. -/
def Link.IsBeforeList : Link α → Prop
  | off | toList | listing .. | resting _ true | silent | ended => True
  | toWatch | opening .. | watching _ | resting _ false => False

namespace Informer

/-- Until its first list is complete, an informer has no changes to hand out, and it is not past
that list unless the end of it is still to be handed out. -/
def ListsFirst (i : Informer α) : Prop :=
  i.cache.synced = false →
    (∀ e ∈ i.events, e.IsOfList) ∧ (i.link.IsBeforeList ∨ .listEnd ∈ i.events)

variable {i : Informer α}

theorem listsFirst_new : ({} : Informer α).ListsFirst := fun _ => ⟨by simp, .inl trivial⟩

theorem listsFirst_relist (i : Informer α) : i.relist.ListsFirst :=
  fun _ => ⟨by simp [relist, Event.IsOfList], .inl trivial⟩

theorem listsFirst_start (h : i.ListsFirst) : i.start.ListsFirst := by
  rw [start]
  split
  next => exact listsFirst_relist i
  next => exact h

theorem listsFirst_stop (i : Informer α) : i.stop.ListsFirst :=
  fun _ => ⟨by simp [stop], .inl trivial⟩

theorem listsFirst_receive (h : i.ListsFirst) (d : Delivery α) : (i.receive d).ListsFirst := by
  rw [receive]
  split
  next inbox hlink =>
    intro hunsynced
    obtain ⟨hevents, hlinked | hend⟩ := h hunsynced
    · rw [hlink] at hlinked
      exact hlinked.elim
    · exact ⟨hevents, .inr hend⟩
  next => exact h

theorem synced_observe {name : α → String} {c : Cache α} (e : Event α) :
    (c.observe name e).synced = false → c.synced = false ∧ e ≠ .listEnd := by
  cases e <;> simp [Cache.observe]

/-- **A move keeps to it**: a change is handed out only once a list is complete. -/
theorem listsFirst_move (h : i.ListsFirst) (name : α → String) (now : Moment) :
    match i.move name now with
    | .hand e next => next.ListsFirst ∧ (¬ e.IsOfList → i.cache.synced = true)
    | .go next => next.ListsFirst
    | .ask verb => verb ≠ .list → i.cache.synced = true
    | .wait _ => True := by
  rw [move]
  cases hevents : i.events with
  | cons e rest =>
      rw [ListsFirst, hevents] at h
      refine ⟨fun hunsynced => ?_, fun hchange => ?_⟩
      · -- What is handed out is not the end of a list, so that is still among the rest.
        obtain ⟨hbefore, hgoes⟩ := synced_observe e hunsynced
        obtain ⟨hlist, hlink⟩ := h hbefore
        refine ⟨fun e' he' => hlist e' (List.mem_cons_of_mem _ he'),
          hlink.imp_right fun hend => ?_⟩
        exact (List.mem_cons.1 hend).resolve_left (Ne.symm hgoes)
      · refine Bool.of_not_eq_false fun hunsynced => hchange ?_
        exact (h hunsynced).1 e List.mem_cons_self
  | nil =>
      -- With nothing to hand out, a link that is past the first list proves that list complete.
      have hpast (hlink : ¬ i.link.IsBeforeList) : i.cache.synced = true := by
        refine Bool.of_not_eq_false fun hunsynced => hlink ?_
        exact (h hunsynced).2.resolve_right (by simp [hevents])
      have hsynced (hlink : ¬ i.link.IsBeforeList) (next : Informer α)
          (hcache : next.cache.synced = i.cache.synced) : next.ListsFirst := by
        intro hunsynced
        rw [hcache, hpast hlink] at hunsynced
        cases hunsynced
      have hdue (due : Moment) (next : Informer α) (hnext : next.ListsFirst) :
          match (if now.before due then Move.wait (some due) else .go next) with
          | .hand e next => next.ListsFirst ∧ (¬ e.IsOfList → i.cache.synced = true)
          | .go next => next.ListsFirst
          | .ask verb => verb ≠ .list → i.cache.synced = true
          | .wait _ => True := by
        by_cases hwait : now.before due = true
        · simp [hwait]
        · simpa [hwait] using hnext
      cases hlink : i.link with
      | off | silent | ended => trivial
      | toList => exact absurd rfl
      | toWatch => exact fun _ => hpast (by simp [hlink, Link.IsBeforeList])
      | listing due objects =>
          cases objects with
          | none =>
              exact hdue due (i.fail now true) fun _ => ⟨by simp [fail, hevents], .inl trivial⟩
          | some objects =>
              exact hdue due
                { i with events := objects.map .listed ++ [.listEnd], link := .toWatch }
                fun _ => ⟨fun e he => isOfList_of_mem he, .inr (by simp)⟩
      | opening due accepted =>
          have hopen : ¬ i.link.IsBeforeList := by simp [hlink, Link.IsBeforeList]
          cases accepted <;> exact hdue _ _ (hsynced hopen _ rfl)
      | watching inbox =>
          have hopen : ¬ i.link.IsBeforeList := by simp [hlink, Link.IsBeforeList]
          cases inbox with
          | nil => trivial
          | cons delivery rest =>
              cases delivery with
              | changed a | removed a => exact ⟨hsynced hopen _ rfl, fun _ => hpast hopen⟩
              | closed | expired => exact hsynced hopen _ rfl
      | resting wake relist =>
          cases relist with
          | true => exact hdue _ _ (listsFirst_relist _)
          | false => exact hdue _ _ (hsynced (by simp [hlink, Link.IsBeforeList]) _ rfl)

/-- Nothing is asked for as long as there is something to hand out. -/
theorem events_of_ask {name : α → String} {now : Moment} {verb : Verb}
    (h : i.move name now = .ask verb) : i.events = [] := by
  cases hevents : i.events with
  | nil => rfl
  | cons e rest =>
      rw [move, hevents] at h
      cases h

theorem listsFirst_asked {verb : Verb} (hevents : i.events = [])
    (hverb : verb ≠ .list → i.cache.synced = true) (due : Moment) (reply : Reply)
    (objects : List α) : (i.asked verb due reply objects).ListsFirst := by
  intro hunsynced
  have hcache : (i.asked verb due reply objects).cache = i.cache := by
    cases reply <;> cases verb <;> rfl
  obtain rfl : verb = .list := by
    refine Classical.byContradiction fun hne => ?_
    rw [hcache, hverb hne] at hunsynced
    cases hunsynced
  have hnone : (i.asked .list due reply objects).events = [] := by cases reply <;> exact hevents
  exact ⟨by simp [hnone], .inl (by cases reply <;> trivial)⟩

end Informer

variable {kind : Kind} {n : String} {i i' : Informer Object} {s s' : Site}

/-- **What a move of an informer can be.**  It writes and reports nothing, and its cache follows the
event that it hands out, if there is one. -/
theorem Site.drive?_cases {e? : Option (Event Object)}
    (h : s.drive? kind n i = some (s', i', e?)) :
    s'.writes = s.writes ∧ s'.notices = s.notices ∧
      i'.cache = e?.elim i.cache (i.cache.observe Object.name) ∧
      (i.ListsFirst → i'.ListsFirst ∧
        ∀ e, e? = some e → ¬ e.IsOfList → i.cache.synced = true) := by
  have hmove (hfirst : i.ListsFirst) := Informer.listsFirst_move hfirst Object.name s.now
  have hcache := Informer.move_cases Object.name s.now i
  rw [drive?] at h
  cases hnext : i.move Object.name s.now with
  | hand e next =>
      rw [hnext] at h hcache
      simp only [hnext] at hmove
      cases h
      refine ⟨rfl, rfl, hcache.1, fun hfirst => ⟨(hmove hfirst).1, ?_⟩⟩
      rintro _ ⟨⟩
      exact (hmove hfirst).2
  | go next =>
      rw [hnext] at h hcache
      simp only [hnext] at hmove
      cases h
      exact ⟨rfl, rfl, hcache.1, fun hfirst => ⟨hmove hfirst, by simp⟩⟩
  | ask verb =>
      rw [hnext] at h
      simp only [hnext] at hmove
      cases h
      refine ⟨rfl, rfl, Informer.cache_asked .., fun hfirst => ⟨?_, by simp⟩⟩
      exact Informer.listsFirst_asked (Informer.events_of_ask hnext) (hmove hfirst) _ _ _
  | wait wake =>
      rw [hnext] at h
      cases h

end ImageRollout.Cluster
