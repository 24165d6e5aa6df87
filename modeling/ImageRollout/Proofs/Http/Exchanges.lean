import ImageRollout.Http.Handling
import ImageRollout.Proofs.Bus.Progress

/-!
# Exchanges with the web server

An exchange is a request that is being handled, together with the session of the bus in which its
pushes are collected.  Its steps are the moves of the handling and whatever else happens on the bus,
in any order: other collectors make calls, calls return, pushes are dispatched, the bus is stopped.
Nobody else makes calls in the name of the collector that handles the request, and while it does the
collector is not let go.

* `next?_cases`, `next?_eq_none_iff`: the moves of a handling, and when there is none.
* `mem_underWay_step`: only a call that is made is under way anew.
* `kept_step`, `kept_run`: what has been submitted and what is still to be submitted are the pushes
  of the request, and the response is given when all calls have returned.
* `leads_answered`: the response can always come.
* `Kept.serves`: what this means for a request that has its response, and for one that waits.
-/

namespace ImageRollout

namespace Bus.Session

variable {H : Type} {channel : Channel} {s s' : Session H}

/-- A call that is under way after a step was under way before, or was made in the step. -/
theorem mem_underWay_step (hstep : Step channel s s') {c : Call} (hc : c ∈ s'.bus.underWay) :
    c ∈ s.bus.underWay ∨ s'.calls = s.calls ++ [c] := by
  cases hstep with
  | call made =>
      change c ∈ (s.bus.call made).1.underWay at hc
      cases hclosed : s.bus.closed with
      | true =>
          rw [call_of_closed hclosed] at hc
          exact .inl hc
      | false =>
          rw [underWay_call_of_open hclosed] at hc
          refine (List.mem_append.1 hc).imp_right fun hlast => ?_
          rw [List.mem_singleton.1 hlast]
          rfl
  | fill _ hplaced =>
      rw [fill, underWay_fill hplaced] at hc
      exact .inl (List.mem_of_mem_erase hc)
  | refuse =>
      exact .inl ((List.mem_append.1 hc).elim
        (fun hplaced => List.mem_append_left _ (List.mem_of_mem_erase hplaced))
        fun hwaiting => List.mem_append_right _ (List.mem_of_mem_erase hwaiting))
  | start => exact .inl ((start_frame s.bus).2.2 ▸ hc)
  | advance hmove =>
      rcases advance?_cases hmove with ⟨-, -, rfl⟩ | ⟨push, queue, -, -, -, rfl⟩ |
        ⟨push, -, rfl⟩
      · exact .inl hc
      · rw [advanced, underWay_givePlaces] at hc
        exact .inl hc
      · exact .inl hc
  | handled ending hphase =>
      rw [handled, handled_of_busy hphase] at hc
      exact .inl hc
  | stop | endCollecting => exact .inl hc

/-- A collector that makes no call in a step is calling after it only if it was before. -/
theorem isCalling_step {collector : Nat} (hstep : Step channel s s')
    (hcalls : callsOf collector s'.calls = callsOf collector s.calls)
    (hidle : s.bus.isCalling collector = false) : s'.bus.isCalling collector = false := by
  refine isCalling_eq_false_iff.2 fun c hc hown => ?_
  rcases mem_underWay_step hstep hc with hearlier | hmade
  · exact isCalling_eq_false_iff.1 hidle c hearlier hown
  · rw [hmade, callsOf_append] at hcalls
    simp [callsOf, hown] at hcalls

end Bus.Session

namespace Http

open Bus (Call Channel Session callsOf)

namespace Handling

variable {h h' : Handling} {calling : Bool} {c? : Option Call}

/-- **The moves of a handling.**  It makes no move while a call of its collector is under way, nor
when the response has been given; else it makes the call of the next push, or, when there is none,
gives the response. -/
theorem next?_cases (hmove : h.next? calling = some (h', c?)) :
    (calling = false ∧ h.answered = false) ∧
      ((∃ push pending, h.pending = push :: pending ∧ h' = { h with pending } ∧
        c? = some { collector := h.collector, push }) ∨
      (h.pending = [] ∧ h' = { h with answered := true } ∧ c? = none)) := by
  rw [next?] at hmove
  split at hmove
  next => cases hmove
  next hfree =>
    refine ⟨by simpa using hfree, ?_⟩
    split at hmove
    next push pending hpending =>
      cases hmove
      exact .inl ⟨push, pending, hpending, rfl, rfl⟩
    next hpending =>
      cases hmove
      exact .inr ⟨hpending, rfl, rfl⟩

/-- The moves of a handling leave it to the same collector, with the same response in the end. -/
theorem frame_next? (hmove : h.next? calling = some (h', c?)) :
    h'.collector = h.collector ∧ h'.response = h.response := by
  obtain ⟨-, ⟨push, pending, -, rfl, -⟩ | ⟨-, rfl, -⟩⟩ := next?_cases hmove <;>
    exact ⟨rfl, rfl⟩

/-- A handling waits for its call to return, and for nothing else. -/
theorem next?_eq_none_iff : h.next? calling = none ↔ calling = true ∨ h.answered = true := by
  rw [next?]
  split
  next hwait => simpa using hwait
  next hfree =>
    simp only [Bool.or_eq_true] at hfree
    split <;> simp [hfree]

end Handling

/-- A request that is being handled, and the session of the bus. -/
structure Exchange (H : Type) where
  handling : Handling
  session : Session H

namespace Exchange

variable {H : Type}

/-- The session after a move of a handling, with the call that is made in it. -/
def after (s : Session H) : Option Call → Session H
  | some c => s.call c
  | none => s

/-- One step of an exchange: the handling moves, or something else happens on the bus. -/
inductive Step (channel : Channel) (e : Exchange H) : Exchange H → Prop
  | move {h : Handling} {c? : Option Call}
      (hmove : e.handling.next? (e.session.bus.isCalling e.handling.collector) = some (h, c?)) :
      Step channel e { handling := h, session := after e.session c? }
  | other {s : Session H} (hstep : Session.Step channel e.session s)
      (hcalls : callsOf e.handling.collector s.calls =
        callsOf e.handling.collector e.session.calls)
      (hcollecting : s.bus.collecting = true) : Step channel e { e with session := s }

/-- What comes of an exchange by any number of steps. -/
abbrev Leads (channel : Channel) : Exchange H → Exchange H → Prop :=
  Relation.ReflTransGen (Step channel)

/-- A request comes to a session, and is handled in the name of a collector. -/
structure Begins (channel : Channel) (capacity : Nat) (handlers : List H)
    (resolve : Admission.Resolver) (r : Request) (e : Exchange H) : Prop where
  reached : Session.Leads channel (Session.new capacity handlers) e.session
  collecting : e.session.bus.collecting = true
  handling_eq : e.handling = Handling.begin resolve e.handling.collector r

/-- The pushes that have been submitted in the name of the collector. -/
def submitted (e : Exchange H) : List Image.Push :=
  (callsOf e.handling.collector e.session.calls).map (·.push)

/-- The pushes of those calls of the collector that have returned. -/
def returned (e : Exchange H) : List Image.Push :=
  (callsOf e.handling.collector (e.session.filled ++ e.session.refused)).map (·.push)

/-- What all steps of an exchange keep. -/
structure Kept (capacity : Nat) (handlers : List H) (response : Response)
    (earlier pushes : List Image.Push) (e : Exchange H) : Prop where
  sound : e.session.Sound capacity handlers
  collecting : e.session.bus.collecting = true
  response_eq : e.handling.response = response
  /-- After what the collector had submitted earlier come the first pushes; the others are
  pending. -/
  submits : ∃ first, e.submitted = earlier ++ first ∧ first ++ e.handling.pending = pushes
  /-- The response is given after all calls have returned. -/
  answered : e.handling.answered = true →
    e.handling.pending = [] ∧ e.session.bus.isCalling e.handling.collector = false

/-- The pushes of a request are submitted one by one, and then the response is given. -/
structure Serves (channel : Channel) (response : Response) (earlier pushes : List Image.Push)
    (e : Exchange H) : Prop where
  response_eq : e.handling.response = response
  /-- The calls that have been made are those of the first pushes, and the others are pending. -/
  submits : ∃ first, e.submitted = earlier ++ first ∧ first ++ e.handling.pending = pushes
  /-- When the response is given every call has returned, and unless the bus has ended, every push
  has been put into the queue. -/
  answered : e.handling.answered = true →
    e.handling.pending = [] ∧ e.returned = earlier ++ pushes ∧
      (e.session.bus.closed = false → e.session.refused = [])
  /-- Until then the next move is only waited for while a call is under way, and this has a place
  to fill, or has to find out that the queue is closed, or waits while all places are taken. -/
  waits : e.handling.answered = false →
    e.handling.next? (e.session.bus.isCalling e.handling.collector) = none →
    ∃ c ∈ e.session.bus.underWay, c.collector = e.handling.collector ∧
      (c ∈ e.session.bus.placed ∨ e.session.bus.closed = true ∨
        e.session.bus.capacity ≤ e.session.bus.taken)
  /-- The response can come without the bus being stopped, if the bus has places at all and some
  call that has one can always fill it. -/
  ends : channel.Lets → 0 < e.session.bus.capacity → ∃ e', Leads channel e e' ∧
    e'.handling.answered = true ∧ e'.session.bus.stopped = e.session.bus.stopped

variable {channel : Channel} {capacity : Nat} {handlers : List H} {response : Response}
  {earlier pushes : List Image.Push} {e e' : Exchange H}

/-- The move of a handling makes the next call, or gives the response. -/
theorem kept_move (h : e.Kept capacity handlers response earlier pushes) {next : Handling}
    {c? : Option Call}
    (hmove : e.handling.next? (e.session.bus.isCalling e.handling.collector) = some (next, c?)) :
    Kept capacity handlers response earlier pushes
      { handling := next, session := after e.session c? } := by
  obtain ⟨⟨hidle, hasked⟩,
      ⟨push, pending, hpending, rfl, rfl⟩ | ⟨hpending, rfl, rfl⟩⟩ :=
    Handling.next?_cases hmove
  · obtain ⟨-, -, -, -, -, -, hcollecting⟩ :=
      Bus.call_frame e.session.bus { collector := e.handling.collector, push }
    refine ⟨Session.sound_call h.sound h.collecting hidle, hcollecting.trans h.collecting,
      h.response_eq, ?_, fun hanswered => ?_⟩
    · obtain ⟨first, hfirst, hpushes⟩ := h.submits
      refine ⟨first ++ [push], ?_, by rw [← hpushes, hpending]; simp⟩
      change
        (callsOf e.handling.collector
          (e.session.calls ++ [⟨e.handling.collector, push⟩])).map (·.push) =
          earlier ++ (first ++ [push])
      rw [← List.append_assoc, ← hfirst, submitted, Bus.callsOf_append, List.map_append]
      simp [callsOf]
    · change e.handling.answered = true at hanswered
      rw [hasked] at hanswered
      cases hanswered
  · exact ⟨h.sound, h.collecting, h.response_eq, h.submits, fun _ => ⟨hpending, hidle⟩⟩

/-- **Every step of an exchange keeps the invariant.** -/
theorem kept_step (h : e.Kept capacity handlers response earlier pushes)
    (hstep : Step channel e e') : e'.Kept capacity handlers response earlier pushes := by
  cases hstep with
  | move hmove => exact kept_move h hmove
  | other hstep hcalls hcollecting =>
      refine ⟨Session.sound_step h.sound hstep, hcollecting, h.response_eq, ?_,
        fun hanswered => ?_⟩
      · rw [submitted, hcalls]
        exact h.submits
      · obtain ⟨hpending, hidle⟩ := h.answered hanswered
        exact ⟨hpending, Session.isCalling_step hstep hcalls hidle⟩

/-- **Every run of an exchange keeps the invariant.** -/
theorem kept_run (h : e.Kept capacity handlers response earlier pushes)
    (hrun : Leads channel e e') : e'.Kept capacity handlers response earlier pushes := by
  induction hrun with
  | refl => exact h
  | tail _ hstep ih => exact kept_step ih hstep

/-- When a request has just come nothing of it has been submitted. -/
theorem kept_begins {resolve : Admission.Resolver} {r : Request}
    (h : e.Begins channel capacity handlers resolve r) :
    e.Kept capacity handlers (respond resolve r) e.submitted (Http.pushes r) where
  sound := Session.sound_run (Session.sound_new capacity handlers) h.reached
  collecting := h.collecting
  response_eq := by
    rw [h.handling_eq]
    rfl
  submits := by
    refine ⟨[], (List.append_nil _).symm, ?_⟩
    rw [h.handling_eq]
    rfl
  answered := fun hanswered => by
    rw [h.handling_eq] at hanswered
    cases hanswered

/-- When no call of the collector is under way, all its calls have returned. -/
theorem returned_eq_submitted (h : e.session.Accounts)
    (hidle : e.session.bus.isCalling e.handling.collector = false) :
    e.returned = e.submitted := by
  have hnone : callsOf e.handling.collector e.session.bus.underWay = [] :=
    List.filter_eq_nil_iff.2 fun c hc => by
      simpa using Bus.isCalling_eq_false_iff.1 hidle c hc
  rw [returned, submitted, ← h.told, Bus.callsOf_append _ (_ ++ _), hnone, List.append_nil]

/-- An exchange lives through what the bus does by itself. -/
theorem leads_goesOn (hcollecting : e.session.bus.collecting = true) {s : Session H}
    (hgoes : Session.GoesOn channel e.session s) :
    Leads channel e { e with session := s } ∧ s.bus.collecting = true := by
  induction hgoes with
  | refl => exact ⟨.refl, hcollecting⟩
  | @tail before after _ honward ih =>
      obtain ⟨hleads, hbefore⟩ := ih
      have hafter : after.bus.collecting = true := honward.collecting_eq.trans hbefore
      exact ⟨hleads.tail (.other honward.step (congrArg _ honward.calls_eq) hafter), hafter⟩

/-- A call that is under way for a request can return. -/
theorem leads_free (h : e.Kept capacity handlers response earlier pushes)
    (hcapacity : 0 < capacity) (hlets : channel.Lets) :
    ∃ s : Session H, Leads channel e { e with session := s } ∧
      s.bus.isCalling e.handling.collector = false ∧
      s.bus.stopped = e.session.bus.stopped := by
  cases hcalling : e.session.bus.isCalling e.handling.collector with
  | false => exact ⟨e.session, .refl, hcalling, rfl⟩
  | true =>
      obtain ⟨c, hc, hown⟩ := List.any_eq_true.1 hcalling
      obtain ⟨s, hgoes, hsub⟩ := Session.onward_returned h.sound hcapacity hlets hc
      refine ⟨s, (leads_goesOn h.collecting hgoes).1, Bus.isCalling_eq_false_iff.2 ?_,
        Session.stopped_goesOn hgoes⟩
      intro other hother heq
      have hstays := hsub.subset hother
      have hsame : other = c := by
        refine List.inj_on_of_nodup_map h.sound.seated.distinct (List.mem_of_mem_erase hstays) hc ?_
        rw [heq]
        exact (of_decide_eq_true hown).symm
      exact h.sound.seated.nodup.not_mem_erase (hsame ▸ hstays)

/-- **The response can always come**, and the bus need not be stopped for that. -/
theorem leads_answered (h : e.Kept capacity handlers response earlier pushes)
    (hcapacity : 0 < capacity) (hlets : channel.Lets) :
    ∃ e', Leads channel e e' ∧ e'.handling.answered = true ∧
      e'.session.bus.stopped = e.session.bus.stopped := by
  cases hasked : e.handling.answered with
  | true => exact ⟨e, .refl, hasked, rfl⟩
  | false =>
      induction hpending : e.handling.pending generalizing e with
      | nil =>
          obtain ⟨s, hleads, hidle, hstopped⟩ := leads_free h hcapacity hlets
          have hmove : e.handling.next? (s.bus.isCalling e.handling.collector) =
              some ({ e.handling with answered := true }, none) := by
            simp [Handling.next?, hidle, hasked, hpending]
          exact ⟨_, hleads.tail (.move hmove), rfl, hstopped⟩
      | cons push rest ih =>
          obtain ⟨s, hleads, hidle, hstopped⟩ := leads_free h hcapacity hlets
          let c : Call := { collector := e.handling.collector, push }
          have hmove : e.handling.next? (s.bus.isCalling e.handling.collector) =
              some ({ e.handling with pending := rest }, some c) := by
            simp [Handling.next?, hidle, hasked, hpending, c]
          have hcalled := hleads.tail (.move hmove)
          obtain ⟨e', hmore, hdone, hsame⟩ := ih (kept_run h hcalled) hasked rfl
          refine ⟨e', hcalled.trans hmore, hdone, hsame.trans ?_⟩
          exact (Bus.call_frame s.bus c).2.2.2.2.2.1.trans hstopped

/-- **What an exchange comes to.** -/
theorem Kept.serves (h : e.Kept capacity handlers response earlier pushes) (channel : Channel) :
    e.Serves channel response earlier pushes where
  response_eq := h.response_eq
  submits := h.submits
  answered := fun hanswered => by
    obtain ⟨hpending, hidle⟩ := h.answered hanswered
    obtain ⟨first, hfirst, hpushes⟩ := h.submits
    rw [hpending, List.append_nil] at hpushes
    refine ⟨hpending, ?_, fun hopen => (h.sound.accounts.kept hopen).1⟩
    rw [returned_eq_submitted h.sound.accounts hidle, hfirst, hpushes]
  waits := fun hasked hnone => by
    have hcalling := (Handling.next?_eq_none_iff.1 hnone).resolve_right (by simp [hasked])
    obtain ⟨c, hc, hown⟩ := List.any_eq_true.1 hcalling
    refine ⟨c, hc, by simpa using hown, ?_⟩
    rcases List.mem_append.1 hc with hplaced | hwaiting
    · exact .inl hplaced
    · cases hclosed : e.session.bus.closed with
      | true => exact .inr (.inl rfl)
      | false =>
          have hfull := (h.sound.seated.full hclosed).resolve_left (List.ne_nil_of_mem hwaiting)
          exact .inr (.inr hfull)
  ends := fun hlets hcapacity =>
    leads_answered h (h.sound.capacity_eq ▸ hcapacity) hlets

end Exchange

end Http

end ImageRollout
