import ImageRollout.Cluster.Controller

/-!
# What informers come to know

An informer is shown objects by the lists that it asks for and by its open watch.  They are on their
way until it hands out the events that are about them, and its cache changes with these events only.

* `Informer.coming`: the objects that are on their way.
* `Informer.move_cases`, `Controller.driveSilently?_cases`: what a move can be.
-/

namespace ImageRollout.Cluster

open Watch

variable {α : Type}

/-- The object that a delivery is about. -/
def Delivery.object? : Delivery α → Option α
  | changed a | removed a => some a
  | closed | expired => none

/-- The objects that a link holds. -/
def Link.objects : Link α → List α
  | listing _ objects => objects.getD []
  | watching inbox => inbox.filterMap Delivery.object?
  | off | toList | toWatch | opening .. | resting .. | silent | ended => []

namespace Informer

/-- The objects that were shown to the informer and are on their way to its cache. -/
def coming (i : Informer α) : List α := i.events.filterMap Event.object? ++ i.link.objects

theorem cache_start (i : Informer α) : i.start.cache = i.cache := by
  rw [start]
  cases i.link <;> rfl

theorem cache_receive (d : Delivery α) (i : Informer α) : (i.receive d).cache = i.cache := by
  rw [receive]
  cases i.link <;> rfl

theorem cache_asked (verb : Verb) (due : Moment) (reply : Reply) (objects : List α)
    (i : Informer α) : (i.asked verb due reply objects).cache = i.cache := by
  cases reply <;> cases verb <;> rfl

theorem coming_start (i : Informer α) : i.start.coming ⊆ i.coming := by
  rw [start]
  cases i.link with
  | off => exact List.nil_subset _
  | _ => exact List.Subset.refl _

theorem coming_stop (i : Informer α) : i.stop.coming = [] := rfl

theorem coming_receive (d : Delivery α) (i : Informer α) :
    (i.receive d).coming ⊆ i.coming ++ d.object?.toList := by
  rw [receive]
  cases hlink : i.link with
  | watching inbox =>
      intro a ha
      simp only [coming, Link.objects, hlink, List.filterMap_append, List.mem_append] at ha ⊢
      rcases ha with hevent | hold | hnew
      · exact .inl (.inl hevent)
      · exact .inl (.inr hold)
      · cases hobject : d.object? <;> simp_all
  | _ => exact List.subset_append_left _ _

theorem coming_asked (verb : Verb) (due : Moment) (reply : Reply) (objects : List α)
    (i : Informer α) : (i.asked verb due reply objects).coming ⊆ i.coming ++ objects := by
  have hevents : (i.asked verb due reply objects).events = i.events := by
    cases reply <;> cases verb <;> rfl
  have hlink : (i.asked verb due reply objects).link.objects ⊆ objects := by
    cases reply <;> cases verb <;> simp [asked, Link.objects]
  rw [coming, hevents]
  refine List.append_subset.2 ⟨?_, List.Subset.trans hlink (List.subset_append_right _ _)⟩
  exact List.Subset.trans (List.subset_append_left _ _) (List.subset_append_left _ _)

/-- **By itself an informer changes its cache only with an event that it hands out**, and that is
about an object that was on its way. -/
theorem move_cases (name : α → String) (now : Moment) (i : Informer α) :
    match i.move name now with
    | .hand e next => next.cache = i.cache.observe name e ∧
        (∀ a, e.object? = some a → a ∈ i.coming) ∧ next.coming ⊆ i.coming
    | .go next => next.cache = i.cache ∧ next.coming ⊆ i.coming
    | .ask _ | .wait _ => True := by
  have hdue (due : Moment) (next : Informer α) (hcache : next.cache = i.cache)
      (hcoming : next.coming ⊆ i.coming) :
      match (if now.before due then Move.wait (some due) else .go next) with
      | .hand e next => next.cache = i.cache.observe name e ∧
          (∀ a, e.object? = some a → a ∈ i.coming) ∧ next.coming ⊆ i.coming
      | .go next => next.cache = i.cache ∧ next.coming ⊆ i.coming
      | .ask _ | .wait _ => True := by
    by_cases h : now.before due = true
    · simp [h]
    · simpa [h] using ⟨hcache, hcoming⟩
  rw [move]
  cases hevents : i.events with
  | cons e rest =>
      refine ⟨rfl, fun a ha => ?_, ?_⟩
      · simp [coming, hevents, ha]
      · intro a ha
        cases hobject : e.object? <;> simp_all [coming]
  | nil =>
      cases hlink : i.link with
      | off | toList | toWatch | silent | ended => trivial
      | listing due objects =>
          cases objects with
          | none => exact hdue _ _ rfl (by simp [coming, hevents, fail, Link.objects])
          | some objects =>
              refine hdue _ _ rfl ?_
              simp [coming, hlink, Link.objects, Event.object?, Function.comp_def,
                List.filterMap_cons]
      | opening due accepted =>
          cases accepted <;>
            exact hdue _ _ rfl (by simp [coming, hevents, fail, Link.objects])
      | watching inbox =>
          cases inbox with
          | nil => trivial
          | cons delivery rest =>
              cases delivery with
              | changed a | removed a =>
                  refine ⟨rfl, fun b hb => ?_, ?_⟩
                  · cases hb
                    simp [coming, hlink, Link.objects, Delivery.object?]
                  · simp [coming, hlink, Link.objects, Delivery.object?]
              | closed | expired =>
                  exact ⟨rfl, by simp [coming, hevents, fail, Link.objects]⟩
      | resting wake relist =>
          cases relist <;>
            exact hdue _ _ rfl (by
              simp [coming, hevents, Informer.relist, Link.objects, Event.object?,
                List.filterMap_cons])

end Informer

/-- **What a move of an informer can be**, where nobody is told of its events: it hears of nothing,
or of one event.  What is on its way then was so before, or is what the server lists. -/
theorem Controller.driveSilently?_cases {kind : Kind} {n : String} {stopped : Bool}
    {i i' : Informer Object} {s s' : Site}
    (h : driveSilently? kind n stopped i s = some (s', i')) :
    (i'.cache = i.cache ∨ ∃ e, i'.cache = i.cache.observe Object.name e ∧
        ∀ o, e.object? = some o → o ∈ i.coming) ∧
      i'.coming ⊆ i.coming ++ s.server.list kind n := by
  have hold : i.coming ⊆ i.coming ++ s.server.list kind n := List.subset_append_left _ _
  rw [driveSilently?] at h
  split at h
  · split at h
    · cases h
      exact ⟨.inl rfl, List.nil_subset _⟩
    · cases h
  · obtain ⟨⟨s₁, i₁, e?⟩, hdriven, heq⟩ := Option.map_eq_some_iff.1 h
    cases heq
    have hmove := Informer.move_cases Object.name s.now i
    rw [Site.drive?] at hdriven
    cases hnext : i.move Object.name s.now with
    | hand e next =>
        rw [hnext] at hdriven hmove
        cases hdriven
        obtain ⟨hcache, hobject, hcoming⟩ := hmove
        exact ⟨.inr ⟨e, hcache, hobject⟩, List.Subset.trans hcoming hold⟩
    | go next =>
        rw [hnext] at hdriven hmove
        cases hdriven
        exact ⟨.inl hmove.1, List.Subset.trans hmove.2 hold⟩
    | ask verb =>
        rw [hnext] at hdriven
        cases hdriven
        exact ⟨.inl (Informer.cache_asked ..), Informer.coming_asked ..⟩
    | wait wake =>
        rw [hnext] at hdriven
        cases hdriven

end ImageRollout.Cluster
