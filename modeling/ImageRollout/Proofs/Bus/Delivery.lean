import Mathlib.Data.List.Count
import Mathlib.Data.List.Perm.Basic
import ImageRollout.Proofs.Bus.Progress

/-!
# Every push reaches every handler once, in order

What the invariant of sessions means for calls, for a bus that is stopped and for one that has
ended.  Which of two calls that are under way puts its push into the queue first is up to the
channel.  So the pushes of one collector are in order whatever the channel does, and all pushes are
if calls to the channel return in order.

* `perm_of_callsOf`, `ordered_run`: which order the calls have.
* `dispatched_eq_of_stopped`, `ended_run`: what a stopped bus and an ended one still do.
* `leads_ended`, `leads_returned`: a stopped bus can always come to its end, and then every call
  returns.
* `orderly_delivery`: bounds, conservation, order and the end, for every session.
-/

namespace ImageRollout.Bus

variable {H : Type}

/-- Calls of which every collector sees the same are the same, up to their order. -/
theorem perm_of_callsOf {calls others : List Call}
    (h : ∀ collector, callsOf collector calls = callsOf collector others) :
    calls.Perm others := by
  refine List.perm_iff_count.2 fun c => ?_
  have hown (list : List Call) : (callsOf c.collector list).count c = list.count c :=
    List.count_filter (decide_eq_true rfl)
  rw [← hown, h, hown]

namespace Session

variable {capacity : Nat} {handlers : List H} {channel : Channel} {s s' : Session H}

/-- A bus that was stopped stays so, and takes up no further push. -/
theorem stopped_step (h : s.bus.stopped = true) (hstep : Step channel s s') :
    s'.bus.stopped = true ∧ s'.dispatched = s.dispatched := by
  cases hstep with
  | call c => exact ⟨(call_frame s.bus c).2.2.2.2.2.1.trans h, rfl⟩
  | fill | refuse => exact ⟨h, rfl⟩
  | start => exact ⟨(start_frame s.bus).2.1.trans h, rfl⟩
  | advance hmove =>
      rcases advance?_cases hmove with ⟨-, -, rfl⟩ | ⟨push, queue, -, hrunning, -⟩ |
        ⟨push, -, rfl⟩
      · exact ⟨h, List.append_nil _⟩
      · rw [hrunning] at h
        cases h
      · exact ⟨h, List.append_nil _⟩
  | handled ending hphase =>
      rw [handled, handled_of_busy hphase]
      exact ⟨h, rfl⟩
  | stop => exact ⟨rfl, rfl⟩
  | endCollecting => exact ⟨h, rfl⟩

/-- **A stopped bus dispatches nothing more.** -/
theorem dispatched_eq_of_stopped (h : s.bus.stopped = true) (hrun : Leads channel s s') :
    s'.dispatched = s.dispatched := by
  have hboth : s'.bus.stopped = true ∧ s'.dispatched = s.dispatched := by
    induction hrun with
    | refl => exact ⟨h, rfl⟩
    | tail _ hstep ih =>
        obtain ⟨hstopped, hdispatched⟩ := stopped_step ih.1 hstep
        exact ⟨hstopped, hdispatched.trans ih.2⟩
  exact hboth.2

/-- A dispatch that has ended has ended for good, and no call that is made then is under way. -/
theorem ended_step (hsound : s.Sound capacity handlers) (h : s.bus.phase = .ended)
    (hstep : Step channel s s') :
    s'.bus.phase = .ended ∧ s'.dispatched = s.dispatched ∧
      s'.bus.underWay.Sublist s.bus.underWay := by
  have hclosed := hsound.closed_iff.2 h
  cases hstep with
  | call c =>
      have hbus : (s.call c).bus = s.bus := congrArg Prod.fst (call_of_closed hclosed)
      rw [hbus]
      exact ⟨h, rfl, List.Sublist.refl _⟩
  | fill hopen =>
      rw [hclosed] at hopen
      cases hopen
  | @refuse c _ hcall =>
      refine ⟨h, rfl, ?_⟩
      change (s.bus.refuse c).1.underWay.Sublist s.bus.underWay
      rw [underWay_refuse hsound.seated.nodup]
      exact List.erase_sublist
  | start =>
      have hbus : s.bus.start = s.bus := by simp [Bus.start, h]
      rw [hbus]
      exact ⟨h, rfl, List.Sublist.refl _⟩
  | advance hmove => simp [advance?, h] at hmove
  | handled ending hphase =>
      rw [h] at hphase
      cases hphase
  | stop | endCollecting => exact ⟨h, rfl, List.Sublist.refl _⟩

/-- **A dispatch that has ended has ended for good.** -/
theorem ended_run (hsound : s.Sound capacity handlers) (h : s.bus.phase = .ended)
    (hrun : Leads channel s s') :
    s'.bus.phase = .ended ∧ s'.dispatched = s.dispatched ∧
      s'.bus.underWay.Sublist s.bus.underWay := by
  induction hrun with
  | refl => exact ⟨h, rfl, List.Sublist.refl _⟩
  | tail hearlier hstep ih =>
      obtain ⟨hphase, hdispatched, hcalls⟩ := ended_step (sound_run hsound hearlier) ih.1 hstep
      exact ⟨hphase, hdispatched.trans ih.2.1, hcalls.trans ih.2.2⟩

/-- The calls are in the order in which they were made, as long as no push has been lost. -/
def Ordered (s : Session H) : Prop :=
  s.bus.closed = false ∨ s.bus.stopped = false → s.filled ++ s.bus.underWay = s.calls

/-- Where calls return in order, every step keeps all of them in order. -/
theorem ordered_step (hchannel : channel.InOrder) (hsound : s.Sound capacity handlers)
    (h : s.Ordered) (hstep : Step channel s s') : s'.Ordered := by
  cases hstep with
  | call c hcollecting =>
      obtain ⟨-, -, -, -, hclosed, hstopped, -⟩ := call_frame s.bus c
      intro hreason
      change (s.bus.call c).1.closed = false ∨ (s.bus.call c).1.stopped = false at hreason
      rw [hclosed, hstopped] at hreason
      change s.filled ++ (s.bus.call c).1.underWay = s.calls ++ [c]
      cases hend : s.bus.closed with
      | false => rw [underWay_call_of_open hend, ← List.append_assoc, h hreason]
      | true =>
          -- A bus that has ended by itself is deserted.
          have hrunning := hreason.resolve_left (by simp [hend])
          obtain ⟨hdeserted, -⟩ := hsound.accounts.exhausted hend hrunning
          simp [isDeserted, hcollecting] at hdeserted
  | @fill c hopen hplaced hturn =>
      obtain ⟨rest, hfirst⟩ := List.head?_eq_some_iff.1 (hchannel _ _ hturn)
      intro hreason
      change s.filled ++ [c] ++ (s.bus.fill c).underWay = s.calls
      rw [underWay_fill hplaced, ← h hreason, underWay, hfirst]
      simp
  | @refuse c hclosed hcall =>
      intro hreason
      change s.bus.closed = false ∨ s.bus.stopped = false at hreason
      have hrunning := hreason.resolve_left (by simp [hclosed])
      obtain ⟨hdeserted, -⟩ := hsound.accounts.exhausted hclosed hrunning
      rw [isDeserted, Bool.and_eq_true, List.isEmpty_iff] at hdeserted
      rw [hdeserted.2] at hcall
      cases hcall
  | start =>
      obtain ⟨hclosed, hstopped, hcalls⟩ := start_frame s.bus
      rw [Ordered, hclosed, hstopped, hcalls]
      exact h
  | advance hmove =>
      rcases advance?_cases hmove with ⟨hphase, -, rfl⟩ | ⟨push, queue, -, -, -, rfl⟩ |
        ⟨push, -, rfl⟩
      · exact fun _ => h (.inl (open_of_phase hsound (by simp [hphase])))
      · intro hreason
        have hsame := h hreason
        change s.filled ++ (givePlaces _).underWay = s.calls
        rwa [underWay_givePlaces]
      · exact h
  | handled ending hphase =>
      rw [handled, handled_of_busy hphase]
      exact h
  | stop =>
      intro hreason
      exact h (.inl (hreason.resolve_right (by simp [Bus.stop])))
  | endCollecting => exact h

/-- **Where calls return in order**, all of them are in order after every run. -/
theorem ordered_run (hchannel : channel.InOrder) (hrun : Leads channel (new capacity handlers) s) :
    s.Ordered := by
  induction hrun with
  | refl => exact fun _ => rfl
  | tail hearlier hstep ih =>
      exact ordered_step hchannel (sound_run (sound_new capacity handlers) hearlier) ih hstep

/-- A stopped bus with nothing left to do for the handlers ends. -/
theorem leads_ended {push : Image.Push} (hphase : s.bus.phase = .busy push [])
    (hstopped : s.bus.stopped = true) :
    ∃ s', Leads channel s s' ∧ s'.bus.phase = .ended := by
  let resting := s.advanced { s.bus with phase := .idle }
  have hrest : Step channel s resting := .advance (by simp [advance?, hphase])
  have hend : resting.bus.advance? = some resting.bus.finish := by
    simp [resting, advanced, advance?, hstopped]
  exact ⟨resting.advanced resting.bus.finish, .head hrest (.single (.advance hend)), rfl⟩

/-- Once the queue is closed every call returns, each by a step of its own. -/
theorem leads_returned (h : s.Sound capacity handlers) (hclosed : s.bus.closed = true) :
    ∃ s', Leads channel s s' ∧ s'.bus.underWay = [] := by
  induction hcalls : s.bus.underWay generalizing s with
  | nil => exact ⟨s, .refl, hcalls⟩
  | cons c rest ih =>
      have hcall : c ∈ s.bus.underWay := hcalls ▸ List.mem_cons_self
      obtain ⟨hrefused, hrest⟩ := onward_refused channel h hclosed hcall
      rw [hcalls, List.erase_cons_head] at hrest
      obtain ⟨s', hleads, hnone⟩ := ih (sound_refuse h hclosed hcall) hclosed hrest
      exact ⟨s', .head hrefused.step hleads, hnone⟩

/-- **Orderly delivery.**  In every session, whatever the order of its steps and whichever handlers
fail:

* the queue never holds more than it has room for;
* until the bus is stopped, and beyond that until the dispatch ends, no push is lost and none comes
  twice: the dispatched pushes and the queued ones are those of the calls that have returned, which
  are all calls together with those under way.  Those of one collector are in the order in which
  they were made, and so are all of them if calls to the channel return in order;
* every dispatched push is dealt with by all handlers in the order of their registration before the
  next one is taken up;
* once the bus is stopped no further push is taken up, and the dispatch does not end before all
  handlers are done with the one in hand; it ends when they are, however their work ends;
* once the dispatch has ended no push is queued, then or ever after; a call that is made then
  returns at once, and one that was under way returns by itself.  What was in the queue is lost, and
  every other push that is not dispatched is reported as dropped. -/
theorem orderly_delivery (hrun : Leads channel (new capacity handlers) s) :
    s.bus.queue.length ≤ capacity ∧
    (s.bus.stopped = false ∨ s.bus.phase ≠ .ended →
      s.dispatched ++ s.bus.queue = s.filled.map (·.push) ∧
      (s.filled ++ s.bus.underWay).Perm s.calls ∧
      (∀ collector, callsOf collector (s.filled ++ s.bus.underWay) =
        callsOf collector s.calls) ∧
      (channel.InOrder →
        s.dispatched ++ s.bus.queue ++ s.bus.pending = s.calls.map (·.push))) ∧
    (s.bus.handlers = handlers ∧ s.Orderly) ∧
    (s.bus.stopped = true →
      (∀ s', Leads channel s s' → s'.dispatched = s.dispatched ∧
        (s'.bus.phase = .ended → s'.record = s.dispatched.flatMap (rounds handlers))) ∧
      ∀ push rest endings, s.bus.phase = .busy push rest → endings.length = rest.length →
        Leads channel s (finishing push rest endings s) ∧
        ∃ s', Leads channel (finishing push rest endings s) s' ∧ s'.bus.phase = .ended) ∧
    (s.bus.phase = .ended → ∀ s', Leads channel s s' →
      s'.bus.phase = .ended ∧ s'.dispatched = s.dispatched ∧ s'.bus.queue = [] ∧
      s'.bus.underWay.Sublist s.bus.underWay ∧
      (∀ c, (s'.call c).bus = s'.bus ∧ (s'.call c).refused = s'.refused ++ [c]) ∧
      (∀ c ∈ s'.bus.underWay, Step channel s' (s'.refuse c)) ∧
      (∃ returned, Leads channel s' returned ∧ returned.bus.underWay = []) ∧
      (∃ lost, s'.filled.map (·.push) = s'.dispatched ++ lost ∧ lost.length ≤ capacity) ∧
      (∀ collector, callsOf collector (s'.filled ++ s'.refused ++ s'.bus.underWay) =
        callsOf collector s'.calls) ∧
      refusals s'.notices = s'.refused.map (·.push)) := by
  have hsound := sound_run (sound_new capacity handlers) hrun
  refine ⟨?_, fun hreason => ?_, ⟨hsound.handlers_eq, hsound.orderly⟩,
    fun hstopped => ⟨?_, ?_⟩, fun hended s' hleads => ?_⟩
  · exact hsound.capacity_eq ▸ Nat.le_trans (Nat.le_add_right _ _) hsound.seated.bounded
  · have hreason' : s.bus.closed = false ∨ s.bus.stopped = false :=
      hreason.symm.imp_left (open_of_phase hsound)
    have hkept : s.refused = [] ∧ s.dispatched ++ s.bus.queue = s.filled.map (·.push) := by
      cases hclosed : s.bus.closed with
      | false =>
          obtain ⟨hrefused, hfilled⟩ := hsound.accounts.kept hclosed
          exact ⟨hrefused, hfilled.symm⟩
      | true =>
          -- A dispatch that has ended by itself had nothing left to take up.
          have hrunning := hreason'.resolve_left (by simp [hclosed])
          obtain ⟨-, hrefused, hfilled⟩ := hsound.accounts.exhausted hclosed hrunning
          rw [(hsound.accounts.settled hclosed).1, List.append_nil]
          exact ⟨hrefused, hfilled.symm⟩
    have htold (collector : Nat) :
        callsOf collector (s.filled ++ s.bus.underWay) = callsOf collector s.calls := by
      rw [← hsound.accounts.told, hkept.1, List.append_nil]
    refine ⟨hkept.2, perm_of_callsOf htold, htold, fun hchannel => ?_⟩
    rw [hkept.2, pending, ← List.map_append, ordered_run hchannel hrun hreason']
  · intro s' hleads
    have hdispatched := dispatched_eq_of_stopped hstopped hleads
    refine ⟨hdispatched, fun hended => ?_⟩
    have hsound' := sound_run hsound hleads
    rw [(orderly_iff_of_not_busy (by simp [hended])).1 hsound'.orderly, hdispatched,
      hsound'.handlers_eq]
  · intro push rest endings hphase hlength
    obtain ⟨hgoes, hbus⟩ := goesOn_finishing hphase hlength
    exact ⟨leads_of_goesOn hgoes, leads_ended (by rw [hbus]) (by rw [hbus, hstopped])⟩
  · obtain ⟨hended', hdispatched, hcalls⟩ := ended_run hsound hended hleads
    have hsound' := sound_run hsound hleads
    have hclosed := hsound'.closed_iff.2 hended'
    obtain ⟨hqueue, hlost⟩ := hsound'.accounts.settled hclosed
    refine ⟨hended', hdispatched, hqueue, hcalls, fun c => ⟨?_, if_pos hclosed⟩,
      fun c hcall => .refuse hclosed hcall, leads_returned hsound' hclosed,
      hsound'.capacity_eq ▸ hlost, hsound'.accounts.told, hsound'.accounts.reported⟩
    exact congrArg Prod.fst (call_of_closed hclosed)

/-- A session in which the first of two handlers has failed with the first of three pushes, the
second push fills the queue, the call of the third waits, and the bus was stopped. -/
def stoppedMidway : Session String where
  bus :=
    { capacity := 1, handlers := ["first", "second"], queue := [⟨"app", "v2"⟩]
      waiting := [⟨2, ⟨"app", "v3"⟩⟩], phase := .busy ⟨"app", "v1"⟩ ["second"]
      stopped := true }
  calls := [⟨0, ⟨"app", "v1"⟩⟩, ⟨1, ⟨"app", "v2"⟩⟩, ⟨2, ⟨"app", "v3"⟩⟩]
  filled := [⟨0, ⟨"app", "v1"⟩⟩, ⟨1, ⟨"app", "v2"⟩⟩]
  dispatched := [⟨"app", "v1"⟩]
  record := [.offered ⟨"app", "v1"⟩ "first", .done ⟨"app", "v1"⟩ "first",
    .offered ⟨"app", "v1"⟩ "second"]
  notices := [.handlerFailed ⟨"app", "v1"⟩ "unknown panic"]

/-- The session comes about where calls return in order. -/
theorem leads_stoppedMidway : Leads .first (new 1 ["first", "second"]) stoppedMidway := by
  have hfill {s : Session String} {c : Call} (hopen : s.bus.closed = false)
      (hfirst : s.bus.placed.head? = some c) : Step .first s (s.fill c) :=
    .fill hopen (List.mem_of_mem_head? hfirst) hfirst
  refine .head (.call ⟨0, ⟨"app", "v1"⟩⟩ rfl rfl) (.head (hfill rfl rfl) ?_)
  refine .head .start (.head (.advance rfl) ?_)
  refine .head (.call ⟨1, ⟨"app", "v2"⟩⟩ rfl rfl) (.head (hfill rfl rfl) ?_)
  refine .head (.call ⟨2, ⟨"app", "v3"⟩⟩ rfl rfl) ?_
  exact .head (.handled (.failedAtOnce .other) rfl) (.single .stop)

/-- No push is lost while the second handler still gets the first one, and then no handler gets any
other. -/
theorem delivery_stopped_midway :
    Leads .first (new 1 ["first", "second"]) stoppedMidway ∧ Channel.first.InOrder ∧
    stoppedMidway.dispatched ++ stoppedMidway.bus.queue ++ stoppedMidway.bus.pending =
      [⟨"app", "v1"⟩, ⟨"app", "v2"⟩, ⟨"app", "v3"⟩] ∧
    ∃ s', Leads .first stoppedMidway s' ∧ s'.bus.phase = .ended ∧
      s'.record = rounds ["first", "second"] ⟨"app", "v1"⟩ := by
  have horder : Channel.first.InOrder := fun _ _ hturn => hturn
  obtain ⟨-, hkept, -, hstopped, -⟩ := orderly_delivery leads_stoppedMidway
  obtain ⟨-, -, -, hall⟩ := hkept (.inr fun hended => by cases hended)
  obtain ⟨hlater, hfinish⟩ := hstopped rfl
  obtain ⟨hleads, s', hend, hended⟩ := hfinish _ _ [.failedLater (.text "late")] rfl rfl
  have hrecord := (hlater s' (hleads.trans hend)).2 hended
  exact ⟨leads_stoppedMidway, horder, hall horder, s', hleads.trans hend, hended, hrecord⟩

end Session

end ImageRollout.Bus
