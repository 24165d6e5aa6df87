import ImageRollout.Proofs.Bus.Session

/-!
# Every call can return

A call that is under way does not wait for more than the bus, its handlers and the other calls can
bring about by themselves: nobody needs to make another call, to stop the bus or to let a collector
go.

* `Onward`: the steps by which a bus goes on by itself.
* `goesOn_finishing`, `onward_idle`: the handlers can be done with the push in hand.
* `onward_room`: then a place becomes free, or the dispatch ends.
* `onward_returned`: so each call under way can return.
-/

namespace ImageRollout.Bus

/-- Of the calls that have a place some can always fill it. -/
def Channel.Lets (channel : Channel) : Prop :=
  ∀ placed, placed ≠ [] → ∃ c ∈ placed, channel placed c

/-- Calls can fill their places in order. -/
theorem Channel.lets_first : Channel.first.Lets := fun placed hne => by
  obtain ⟨c, rest, rfl⟩ := List.exists_cons_of_ne_nil hne
  exact ⟨c, List.mem_cons_self, rfl⟩

variable {H : Type}

/-- A call gets a place if one is free. -/
theorem placed_givePlaces_ne_nil {b : Bus H} (hroom : b.taken < b.capacity)
    (hcalls : b.underWay ≠ []) : b.givePlaces.placed ≠ [] := by
  intro hnone
  obtain ⟨hplaced, htake⟩ := List.append_eq_nil_iff.1 hnone
  rw [underWay, hplaced, List.nil_append] at hcalls
  rcases List.take_eq_nil_iff.1 htake with hfull | hwaiting
  · omega
  · exact hcalls hwaiting

namespace Session

variable {capacity : Nat} {handlers : List H} {channel : Channel} {s s' : Session H} {c : Call}

/-- A step by which the bus goes on by itself. -/
structure Onward (channel : Channel) (s s' : Session H) : Prop where
  step : Step channel s s'
  calls_eq : s'.calls = s.calls
  stopped_eq : s'.bus.stopped = s.bus.stopped
  collecting_eq : s'.bus.collecting = s.bus.collecting

/-- The bus goes on by itself for some time. -/
abbrev GoesOn (channel : Channel) : Session H → Session H → Prop :=
  Relation.ReflTransGen (Onward channel)

/-- What a bus does by itself is among all that can happen. -/
theorem leads_of_goesOn (h : GoesOn channel s s') : Leads channel s s' :=
  h.lift id fun _ _ honward => honward.step

/-- A bus that goes on by itself is not stopped on the way. -/
theorem stopped_goesOn (h : GoesOn channel s s') : s'.bus.stopped = s.bus.stopped := by
  induction h with
  | refl => rfl
  | tail _ honward ih => exact honward.stopped_eq.trans ih

/-- A session whose bus goes on by itself stays sound. -/
theorem sound_goesOn (h : s.Sound capacity handlers) (hgoes : GoesOn channel s s') :
    s'.Sound capacity handlers :=
  sound_run h (leads_of_goesOn hgoes)

/-- The begin of the dispatch is a step onward. -/
theorem onward_start (hphase : s.bus.phase = .waiting) (hopen : s.bus.closed = false) :
    Onward channel s { s with bus := { s.bus with phase := .idle } } := by
  have hbus : s.bus.start = { s.bus with phase := .idle } := by simp [Bus.start, hphase, hopen]
  exact ⟨hbus ▸ .start, rfl, rfl, rfl⟩

/-- The handlers still to come are done with the push in hand, one after the other. -/
def finishing (push : Image.Push) : List H → List Ending → Session H → Session H
  | handler :: rest, ending :: endings, s =>
    finishing push rest endings (s.handled push handler ending)
  | _, _, s => s

/-- The handlers still to come are done in the end, whatever becomes of their work. -/
theorem goesOn_finishing {push : Image.Push} {rest : List H} {endings : List Ending}
    (hphase : s.bus.phase = .busy push rest) (hlength : endings.length = rest.length) :
    GoesOn channel s (finishing push rest endings s) ∧
      (finishing push rest endings s).bus = { s.bus with phase := .busy push [] } := by
  induction rest generalizing endings s with
  | nil =>
      cases endings with
      | nil => exact ⟨.refl, hphase ▸ rfl⟩
      | cons _ _ => cases hlength
  | cons handler rest ih =>
      cases endings with
      | nil => cases hlength
      | cons ending endings =>
          have hbus : (s.handled push handler ending).bus =
              { s.bus with phase := .busy push rest } :=
            congrArg Prod.fst (handled_of_busy hphase ending.outcome)
          obtain ⟨hgoes, hdone⟩ := ih (s := s.handled push handler ending) (by rw [hbus])
            (Nat.succ.inj hlength)
          rw [hbus] at hdone
          have hstep : Onward channel s (s.handled push handler ending) :=
            ⟨.handled ending hphase, rfl, by rw [hbus], by rw [hbus]⟩
          exact ⟨.head hstep hgoes, hdone⟩

variable (channel) in
/-- The dispatch can come to have nothing in hand, unless it has ended. -/
theorem onward_idle (hphase : s.bus.phase ≠ .ended) (hopen : s.bus.closed = false) :
    ∃ s', GoesOn channel s s' ∧ s'.bus = { s.bus with phase := .idle } := by
  cases hnow : s.bus.phase with
  | waiting => exact ⟨_, .single (onward_start hnow hopen), rfl⟩
  | idle => exact ⟨s, .refl, hnow ▸ rfl⟩
  | busy push rest =>
      let endings := List.replicate rest.length Ending.returned
      obtain ⟨hgoes, hbus⟩ : GoesOn channel s (finishing push rest endings s) ∧ _ :=
        goesOn_finishing hnow List.length_replicate
      have hrest : (finishing push rest endings s).bus.advance? =
          some { s.bus with phase := .idle } := by
        rw [hbus]
        rfl
      exact ⟨_, hgoes.tail ⟨.advance hrest, rfl, by rw [hbus]; rfl, by rw [hbus]; rfl⟩, rfl⟩
  | ended => exact absurd hnow hphase

variable (channel) in
/-- **A call under way can have a place**, or see the dispatch end. -/
theorem onward_room (h : s.Sound capacity handlers) (hcapacity : 0 < capacity)
    (hopen : s.bus.closed = false) (hcalls : s.bus.underWay ≠ []) :
    ∃ s', GoesOn channel s s' ∧ s'.bus.underWay = s.bus.underWay ∧
      (s'.bus.closed = true ∨ s'.bus.closed = false ∧ s'.bus.placed ≠ []) := by
  by_cases hplaced : s.bus.placed = []
  swap
  · exact ⟨s, .refl, rfl, .inr ⟨hopen, hplaced⟩⟩
  have hphase : s.bus.phase ≠ .ended := fun hended => by
    rw [h.closed_iff.2 hended] at hopen
    cases hopen
  obtain ⟨resting, hgoes, hbus⟩ := onward_idle channel hphase hopen
  -- All calls wait, so the queue is full, and the dispatch has a push to take.
  have hwaiting : s.bus.waiting ≠ [] := by rwa [underWay, hplaced, List.nil_append] at hcalls
  have hfull : capacity ≤ s.bus.queue.length := by
    have hmany := (h.seated.full hopen).resolve_left hwaiting
    rwa [h.capacity_eq, taken, hplaced, List.length_nil, Nat.add_zero] at hmany
  cases hstopped : s.bus.stopped with
  | true =>
      have hend : resting.bus.advance? = some resting.bus.finish := by
        simp [hbus, advance?, hstopped]
      have hstep : Onward channel resting (resting.advanced resting.bus.finish) :=
        ⟨.advance hend, rfl, rfl, rfl⟩
      refine ⟨_, hgoes.tail hstep, ?_, .inl rfl⟩
      change resting.bus.underWay = s.bus.underWay
      rw [hbus]
      rfl
  | false =>
      obtain ⟨push, queue, hqueue⟩ : ∃ push queue, s.bus.queue = push :: queue :=
        List.exists_cons_of_ne_nil fun hnil => by simp [hnil] at hfull; omega
      let freed : Bus H := { s.bus with queue, phase := .busy push s.bus.handlers }
      have htake : resting.bus.advance? = some freed.givePlaces := by
        simp [hbus, advance?, hstopped, hqueue, freed]
      have hstep : Onward channel resting (resting.advanced freed.givePlaces) :=
        ⟨.advance htake, rfl, by rw [hbus]; rfl, by rw [hbus]; rfl⟩
      refine ⟨_, hgoes.tail hstep, underWay_givePlaces freed, .inr ⟨hopen, ?_⟩⟩
      refine placed_givePlaces_ne_nil ?_ hcalls
      have hbounded := h.seated.bounded
      rw [taken, hqueue, List.length_cons] at hbounded
      change queue.length + s.bus.placed.length < s.bus.capacity
      omega

variable (channel) in
/-- A call that finds the queue closed returns by itself. -/
theorem onward_refused (h : s.Sound capacity handlers) (hclosed : s.bus.closed = true)
    (hc : c ∈ s.bus.underWay) :
    Onward channel s (s.refuse c) ∧ (s.refuse c).bus.underWay = s.bus.underWay.erase c :=
  ⟨⟨.refuse hclosed hc, rfl, rfl, rfl⟩, underWay_refuse h.seated.nodup c⟩

/-- Some call under way can return. -/
theorem onward_one (h : s.Sound capacity handlers) (hcapacity : 0 < capacity)
    (hlets : channel.Lets) (hc : c ∈ s.bus.underWay) :
    ∃ d ∈ s.bus.underWay, ∃ s', GoesOn channel s s' ∧
      s'.bus.underWay = s.bus.underWay.erase d := by
  cases hclosed : s.bus.closed with
  | true =>
      obtain ⟨hrefused, hcalls⟩ := onward_refused channel h hclosed hc
      exact ⟨c, hc, _, .single hrefused, hcalls⟩
  | false =>
      obtain ⟨s₁, hgoes, hsame, hend | ⟨hopen, hplaces⟩⟩ :=
        onward_room channel h hcapacity hclosed (List.ne_nil_of_mem hc)
      · obtain ⟨hrefused, hcalls⟩ :=
          onward_refused channel (sound_goesOn h hgoes) hend (hsame ▸ hc)
        exact ⟨c, hc, _, hgoes.tail hrefused, hsame ▸ hcalls⟩
      · obtain ⟨d, hd, hturn⟩ := hlets _ hplaces
        have hfill : Onward channel s₁ (s₁.fill d) := ⟨.fill hopen hd hturn, rfl, rfl, rfl⟩
        exact ⟨d, hsame ▸ List.mem_append_left _ hd, _, hgoes.tail hfill,
          hsame ▸ underWay_fill hd⟩

/-- **Every call under way can return** by what the bus does by itself. -/
theorem onward_returned (h : s.Sound capacity handlers) (hcapacity : 0 < capacity)
    (hlets : channel.Lets) (hc : c ∈ s.bus.underWay) :
    ∃ s', GoesOn channel s s' ∧ s'.bus.underWay.Sublist (s.bus.underWay.erase c) := by
  induction hlength : s.bus.underWay.length using Nat.strongRecOn generalizing s with
  | _ length ih =>
      subst hlength
      obtain ⟨d, hd, s₁, hgoes, hcalls⟩ := onward_one h hcapacity hlets hc
      by_cases hown : c = d
      · subst hown
        exact ⟨s₁, hgoes, hcalls ▸ List.Sublist.refl _⟩
      · -- Another call has returned first, and there is one call less before this one does.
        have hc₁ : c ∈ s₁.bus.underWay := hcalls ▸ (List.mem_erase_of_ne hown).2 hc
        have hless : s₁.bus.underWay.length < s.bus.underWay.length := by
          rw [hcalls, List.length_erase_of_mem hd]
          exact Nat.sub_lt (List.length_pos_of_mem hd) Nat.one_pos
        obtain ⟨s', hmore, hsub⟩ := ih _ hless (sound_goesOn h hgoes) hc₁ rfl
        refine ⟨s', hgoes.trans hmore, hsub.trans ?_⟩
        rw [hcalls]
        exact List.erase_sublist.erase c

end Session

end ImageRollout.Bus
