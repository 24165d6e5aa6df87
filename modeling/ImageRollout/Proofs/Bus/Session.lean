import Mathlib.Data.List.Nodup
import Mathlib.Logic.Relation
import ImageRollout.Proofs.Bus.Moves

/-!
# Sessions of the bus

A session is a bus together with what has happened on it: which calls to collect were made, which of
them have put their push into the queue and which were refused, what was dispatched, and what the
handlers did.  Its steps are those of the calls, of the dispatch, of the handler at work and of
whoever stops the bus or lets the last collector go, in any order whatever.  Of the calls that have
a place in the queue, any may be the next to fill it, as far as the channel lets it.

The invariant is `Sound`.  It has three parts: `Seated` about places, `Accounts` about calls, and
`Orderly`, which says of the record that the pushes were dealt with one by one, each by all handlers
in turn; a handler that fails is no different from one that returns.

* `sound_call`, `sound_fill`, `sound_refuse`: the steps of calls.
* `sound_start`, `sound_advance`, `sound_handled`: the steps of the dispatch and of its handlers.
* `sound_step`, `sound_run`: every step keeps the invariant, and so does every run.
-/

namespace ImageRollout.Bus

variable {H : Type}

/-- The channel under the queue decides which of the calls that have a place, in the order in which
they asked for one, may be the next to fill it. -/
abbrev Channel := List Call → Call → Prop

/-- Calls to the channel return in the order in which they asked for their places, as the
documentation of the channel promises.  Only what is said about calls of several collectors rests on
it. -/
def Channel.InOrder (channel : Channel) : Prop :=
  ∀ placed c, channel placed c → placed.head? = some c

/-- The channel that lets the calls fill their places in order. -/
def Channel.first : Channel := fun placed c => placed.head? = some c

/-- The calls of a collector. -/
def callsOf (collector : Nat) (calls : List Call) : List Call :=
  calls.filter (·.collector = collector)

/-- What a handler does with a push. -/
inductive Mark (H : Type) where
  /-- The handler is given the push. -/
  | offered (push : Image.Push) (handler : H)
  /-- The handler is done with the push. -/
  | done (push : Image.Push) (handler : H)

/-- All that some handlers do with a push, when they have it in turn. -/
def rounds (handlers : List H) (push : Image.Push) : List (Mark H) :=
  handlers.flatMap fun h => [.offered push h, .done push h]

/-- The handler that gets a push next. -/
def offer (push : Image.Push) (handlers : List H) : List (Mark H) :=
  (handlers.head?.map (Mark.offered push)).toList

/-- The push that a phase has in hand. -/
def Phase.inHand : Phase H → List Image.Push
  | .busy push _ => [push]
  | _ => []

/-- What begins with a phase. -/
def Phase.offers : Phase H → List (Mark H)
  | .busy push handlers => offer push handlers
  | _ => []

/-- The pushes that are reported as dropped. -/
def refusals (notices : List Notice) : List Image.Push :=
  notices.filterMap fun
    | .pushDropped push => some push
    | _ => none

/-- A bus and what has happened on it. -/
structure Session (H : Type) where
  bus : Bus H
  /-- All calls to collect, in the order in which they were made. -/
  calls : List Call := []
  /-- The calls that have put their push into the queue, in the order in which they did. -/
  filled : List Call := []
  /-- The calls that found the queue closed. -/
  refused : List Call := []
  /-- The pushes that the dispatch took up. -/
  dispatched : List Image.Push := []
  record : List (Mark H) := []
  notices : List Notice := []

namespace Session

/-- The session after a call is made. -/
def call (c : Call) (s : Session H) : Session H :=
  { s with
    bus := (s.bus.call c).1, calls := s.calls ++ [c]
    refused := if s.bus.closed then s.refused ++ [c] else s.refused
    notices := s.notices ++ (s.bus.call c).2 }

/-- The session after a call has filled its place. -/
def fill (c : Call) (s : Session H) : Session H :=
  { s with bus := s.bus.fill c, filled := s.filled ++ [c] }

/-- The session after a call has found the queue closed. -/
def refuse (c : Call) (s : Session H) : Session H :=
  { s with
    bus := (s.bus.refuse c).1, refused := s.refused ++ [c]
    notices := s.notices ++ (s.bus.refuse c).2 }

/-- The session after a move of the dispatch. -/
def advanced (b : Bus H) (s : Session H) : Session H :=
  { s with
    bus := b, dispatched := s.dispatched ++ b.phase.inHand, record := s.record ++ b.phase.offers }

/-- The session after the handler at work is done with the push in hand. -/
def handled (push : Image.Push) (handler : H) (ending : Ending) (s : Session H) : Session H :=
  let m := s.bus.handled ending.outcome
  { s with
    bus := m.1, record := s.record ++ .done push handler :: m.1.phase.offers
    notices := s.notices ++ m.2 }

/-- One step of a session: a call is made, by a collector that has none under way; a call fills its
place, or is refused; the begin of the dispatch; a move of the dispatch; the end of a handler's
work; the bus is stopped; the last collector goes. -/
inductive Step (channel : Channel) (s : Session H) : Session H → Prop
  | call (c : Call) (hcollecting : s.bus.collecting = true)
      (hidle : s.bus.isCalling c.collector = false) : Step channel s (s.call c)
  | fill {c : Call} (hopen : s.bus.closed = false) (hplaced : c ∈ s.bus.placed)
      (hturn : channel s.bus.placed c) : Step channel s (s.fill c)
  | refuse {c : Call} (hclosed : s.bus.closed = true) (hcall : c ∈ s.bus.underWay) :
      Step channel s (s.refuse c)
  | start : Step channel s { s with bus := s.bus.start }
  | advance {b : Bus H} (hmove : s.bus.advance? = some b) : Step channel s (s.advanced b)
  | handled {push : Image.Push} {handler : H} {rest : List H} (ending : Ending)
      (hphase : s.bus.phase = .busy push (handler :: rest)) :
      Step channel s (s.handled push handler ending)
  | stop : Step channel s { s with bus := s.bus.stop }
  | endCollecting : Step channel s { s with bus := s.bus.endCollecting }

/-- What comes of a session by any number of steps. -/
abbrev Leads (channel : Channel) : Session H → Session H → Prop :=
  Relation.ReflTransGen (Step channel)

/-- A session at its start. -/
def new (capacity : Nat) (handlers : List H) : Session H := { bus := { capacity, handlers } }

end Session

/-- Calls have places, or wait while there are none, and no collector has two calls under way. -/
structure Seated (b : Bus H) : Prop where
  bounded : b.taken ≤ b.capacity
  full : b.closed = false → b.waiting = [] ∨ b.capacity ≤ b.taken
  distinct : (b.underWay.map (·.collector)).Nodup

namespace Session

/-- What has become of the calls that were made. -/
structure Accounts (s : Session H) : Prop where
  /-- The calls of a collector have returned in order, except for the last one, which may be under
  way. -/
  told : ∀ collector, callsOf collector (s.filled ++ s.refused ++ s.bus.underWay) =
    callsOf collector s.calls
  reported : refusals s.notices = s.refused.map (·.push)
  /-- As long as the queue is open no call is refused, and nothing is lost from the queue. -/
  kept : s.bus.closed = false →
    s.refused = [] ∧ s.filled.map (·.push) = s.dispatched ++ s.bus.queue
  /-- What is lost when the queue is closed are the pushes that it held. -/
  settled : s.bus.closed = true → s.bus.queue = [] ∧
    ∃ lost, s.filled.map (·.push) = s.dispatched ++ lost ∧ lost.length ≤ s.bus.capacity
  /-- A bus that was not stopped ends only when all is dispatched and nothing can come. -/
  exhausted : s.bus.closed = true → s.bus.stopped = false → s.bus.isDeserted = true ∧
    s.refused = [] ∧ s.filled.map (·.push) = s.dispatched

/-- The pushes were dealt with one by one, each by all handlers in turn.  Of the push in hand, those
handlers are done that are no longer to come, and the next one has it. -/
def Orderly (s : Session H) : Prop :=
  match s.bus.phase with
  | .busy push rest =>
    ∃ earlier through, s.dispatched = earlier ++ [push] ∧ s.bus.handlers = through ++ rest ∧
      s.record = earlier.flatMap (rounds s.bus.handlers) ++ rounds through push ++ offer push rest
  | _ => s.record = s.dispatched.flatMap (rounds s.bus.handlers)

/-- The invariant of all sessions. -/
structure Sound (capacity : Nat) (handlers : List H) (s : Session H) : Prop where
  capacity_eq : s.bus.capacity = capacity
  handlers_eq : s.bus.handlers = handlers
  seated : s.bus.Seated
  /-- The queue is closed at the end and not before. -/
  closed_iff : s.bus.closed = true ↔ s.bus.phase = .ended
  accounts : s.Accounts
  orderly : s.Orderly

variable {capacity : Nat} {handlers : List H} {channel : Channel} {s s' : Session H} {c : Call}

theorem orderly_iff_of_busy {push : Image.Push} {rest : List H}
    (h : s.bus.phase = .busy push rest) :
    s.Orderly ↔ ∃ earlier through, s.dispatched = earlier ++ [push] ∧
      s.bus.handlers = through ++ rest ∧ s.record =
        earlier.flatMap (rounds s.bus.handlers) ++ rounds through push ++ offer push rest := by
  rw [Orderly, h]

/-- When no push is in hand, all that were dispatched are through. -/
theorem orderly_iff_of_not_busy (h : ∀ push rest, s.bus.phase ≠ .busy push rest) :
    s.Orderly ↔ s.record = s.dispatched.flatMap (rounds s.bus.handlers) := by
  rw [Orderly]
  cases hphase : s.bus.phase with
  | busy push rest => exact absurd hphase (h push rest)
  | waiting | idle | ended => rfl

/-- What calls do is nothing to the order of the record. -/
theorem orderly_congr (hphase : s'.bus.phase = s.bus.phase)
    (hhandlers : s'.bus.handlers = s.bus.handlers) (hdispatched : s'.dispatched = s.dispatched)
    (hrecord : s'.record = s.record) (h : s.Orderly) : s'.Orderly := by
  rw [Orderly] at h ⊢
  rwa [hphase, hhandlers, hdispatched, hrecord]

end Session

section Calls

variable {b : Bus H} {c : Call}

theorem callsOf_append (collector : Nat) (first later : List Call) :
    callsOf collector (first ++ later) = callsOf collector first ++ callsOf collector later :=
  List.filter_append ..

/-- No collector sees the difference when a call goes ahead of calls of other collectors. -/
theorem callsOf_swap {before : List Call}
    (hothers : ∀ other ∈ before, other.collector ≠ c.collector) (after : List Call)
    (collector : Nat) :
    callsOf collector (c :: (before ++ after)) = callsOf collector (before ++ c :: after) := by
  by_cases hown : c.collector = collector
  · have hnone : callsOf collector before = [] :=
      List.filter_eq_nil_iff.2 fun other hother => by simpa [hown] using hothers other hother
    have hfirst (rest : List Call) :
        callsOf collector (c :: rest) = c :: callsOf collector rest := by simp [callsOf, hown]
    rw [hfirst, callsOf_append, callsOf_append, hnone, hfirst]
    rfl
  · simp [callsOf, hown]

/-- Where no collector has two calls, none sees the difference when a call goes first. -/
theorem callsOf_cons_erase {calls : List Call} (hdistinct : (calls.map (·.collector)).Nodup)
    (hc : c ∈ calls) (collector : Nat) :
    callsOf collector (c :: calls.erase c) = callsOf collector calls := by
  obtain ⟨before, after, -, rfl, herase⟩ := List.exists_erase_eq hc
  rw [herase]
  refine callsOf_swap (fun other hother => ?_) after collector
  rw [List.map_append, List.nodup_append] at hdistinct
  exact hdistinct.2.2 _ (List.mem_map_of_mem hother) _ List.mem_cons_self

/-- A collector that is not calling has no call under way. -/
theorem isCalling_eq_false_iff {collector : Nat} :
    b.isCalling collector = false ↔ ∀ c ∈ b.underWay, c.collector ≠ collector := by
  simp [isCalling]

/-- A call that is made when the queue is closed returns at once, and its push is dropped. -/
theorem call_of_closed (h : b.closed = true) : b.call c = (b, [.pushDropped c.push]) :=
  if_pos h

/-- A call that is made while the queue is open waits in line, and has a place if there is one. -/
theorem call_of_open (h : b.closed = false) :
    b.call c = (givePlaces { b with waiting := b.waiting ++ [c] }, []) := by
  simp [call, h]

/-- A call that is made while the queue is open is the last one under way. -/
theorem underWay_call_of_open (h : b.closed = false) :
    (b.call c).1.underWay = b.underWay ++ [c] := by
  rw [call_of_open h, underWay_givePlaces]
  exact (List.append_assoc ..).symm

/-- A call changes nothing of the bus but the calls. -/
theorem call_frame (b : Bus H) (c : Call) :
    (b.call c).1.capacity = b.capacity ∧ (b.call c).1.handlers = b.handlers ∧
      (b.call c).1.queue = b.queue ∧ (b.call c).1.phase = b.phase ∧
      (b.call c).1.closed = b.closed ∧ (b.call c).1.stopped = b.stopped ∧
      (b.call c).1.collecting = b.collecting := by
  rw [call]
  split <;> exact ⟨rfl, rfl, rfl, rfl, rfl, rfl, rfl⟩

namespace Seated

/-- No call is under way twice. -/
theorem nodup (h : b.Seated) : b.underWay.Nodup := List.Nodup.of_map _ h.distinct

/-- Only the places, the calls and whether the queue is closed matter. -/
theorem congr {b' : Bus H} (h : b.Seated) (hcapacity : b'.capacity = b.capacity)
    (hqueue : b'.queue = b.queue) (hplaced : b'.placed = b.placed)
    (hwaiting : b'.waiting = b.waiting) (hclosed : b'.closed = b.closed) : b'.Seated where
  bounded := by
    rw [taken, hqueue, hplaced, hcapacity]
    exact h.bounded
  full := by
    rw [hclosed, hwaiting, hcapacity, taken, hqueue, hplaced]
    exact h.full
  distinct := by
    rw [underWay, hplaced, hwaiting]
    exact h.distinct

/-- Where places are given anew, a call waits only while there are none. -/
theorem givePlaces (hbounded : b.taken ≤ b.capacity)
    (hdistinct : (b.underWay.map (·.collector)).Nodup) : b.givePlaces.Seated where
  bounded := taken_givePlaces_le hbounded
  full := fun _ => waiting_givePlaces b
  distinct := by rwa [underWay_givePlaces]

/-- A call of a collector that has none under way finds its place among the others. -/
theorem call (h : b.Seated) (hidle : b.isCalling c.collector = false) : (b.call c).1.Seated := by
  cases hclosed : b.closed with
  | true => rwa [call_of_closed hclosed]
  | false =>
      rw [call_of_open hclosed]
      refine givePlaces h.bounded ?_
      have hcalls : underWay { b with waiting := b.waiting ++ [c] } = b.underWay ++ [c] :=
        (List.append_assoc ..).symm
      rw [hcalls, List.map_append, List.nodup_append]
      refine ⟨h.distinct, List.nodup_singleton _, fun number hnumber last hlast heq => ?_⟩
      obtain ⟨other, hother, rfl⟩ := List.mem_map.1 hnumber
      exact isCalling_eq_false_iff.1 hidle other hother (heq.trans (List.mem_singleton.1 hlast))

/-- The place that a call fills was taken already. -/
theorem fill (h : b.Seated) (hplaced : c ∈ b.placed) : (b.fill c).Seated where
  bounded := (taken_fill hplaced).symm ▸ h.bounded
  full := (taken_fill hplaced).symm ▸ h.full
  distinct := by
    rw [underWay_fill hplaced]
    exact h.distinct.sublist (List.erase_sublist.map _)

/-- A call that is refused gives its place away. -/
theorem refuse (h : b.Seated) (hclosed : b.closed = true) (c : Call) : (b.refuse c).1.Seated where
  bounded := by
    have hless := (List.erase_sublist (a := c) (l := b.placed)).length_le
    exact Nat.le_trans (Nat.add_le_add_left hless _) h.bounded
  full := fun hopen => by
    change b.closed = false at hopen
    rw [hclosed] at hopen
    cases hopen
  distinct := by
    rw [underWay_refuse h.nodup]
    exact h.distinct.sublist (List.erase_sublist.map _)

/-- The end of the dispatch leaves the calls where they are. -/
theorem finish (h : b.Seated) : b.finish.Seated where
  bounded := Nat.le_trans (Nat.add_le_add_right (Nat.zero_le _) _) h.bounded
  full := fun hopen => by cases hopen
  distinct := h.distinct

end Seated

end Calls

namespace Session

variable {capacity : Nat} {handlers : List H} {channel : Channel} {s s' : Session H} {c : Call}

theorem refusals_append (first later : List Notice) :
    refusals (first ++ later) = refusals first ++ refusals later :=
  List.filterMap_append

/-- Nothing that a handler does makes the bus drop a push. -/
theorem refusals_outcome (push : Image.Push) (outcome : Outcome) :
    refusals (outcome.notices push) = [] := by
  cases outcome <;> rfl

/-- On a bus on which nothing has happened there is nothing to account for. -/
theorem sound_new (capacity : Nat) (handlers : List H) :
    (new capacity handlers).Sound capacity handlers where
  capacity_eq := rfl
  handlers_eq := rfl
  seated := ⟨Nat.zero_le _, fun _ => .inl rfl, List.nodup_nil⟩
  closed_iff := by simp [new]
  accounts := ⟨fun _ => rfl, rfl, fun _ => ⟨rfl, rfl⟩, by simp [new], by simp [new]⟩
  orderly := rfl

namespace Accounts

/-- A call that is made before the end is under way; one that is made later is refused. -/
theorem call (h : s.Accounts) (hcollecting : s.bus.collecting = true)
    (hidle : s.bus.isCalling c.collector = false) : (s.call c).Accounts := by
  have hothers := isCalling_eq_false_iff.1 hidle
  cases hclosed : s.bus.closed with
  | true =>
      have hbus : s.call c = { s with
          calls := s.calls ++ [c], refused := s.refused ++ [c]
          notices := s.notices ++ [.pushDropped c.push] } := by
        simp [Session.call, call_of_closed hclosed, hclosed]
      rw [hbus]
      refine ⟨fun collector => ?_, ?_, fun hopen => ?_, h.settled, fun _ hrunning => ?_⟩
      · -- The call goes ahead of those under way, which are of other collectors.
        have hswap := callsOf_swap hothers [] collector
        rw [List.append_nil] at hswap
        change callsOf collector (s.filled ++ (s.refused ++ [c]) ++ s.bus.underWay) =
          callsOf collector (s.calls ++ [c])
        rw [callsOf_append _ s.calls, ← h.told, ← callsOf_append, List.append_assoc _ _ [c],
          callsOf_append _ (s.filled ++ s.refused), ← hswap, ← callsOf_append]
        simp
      · rw [refusals_append, h.reported, List.map_append]
        rfl
      · rw [hclosed] at hopen
        cases hopen
      · obtain ⟨hdeserted, -⟩ := h.exhausted hclosed hrunning
        simp [isDeserted, hcollecting] at hdeserted
  | false =>
      have hframe := call_frame s.bus c
      obtain ⟨hrefused, hfilled⟩ := h.kept hclosed
      refine ⟨fun collector => ?_, ?_, fun _ => ?_, fun hend => ?_, fun hend => ?_⟩
      · change callsOf collector (s.filled ++ (if s.bus.closed then _ else s.refused) ++
          (s.bus.call c).1.underWay) = callsOf collector (s.calls ++ [c])
        rw [hclosed, if_neg Bool.false_ne_true, underWay_call_of_open hclosed,
          ← List.append_assoc, callsOf_append, h.told, ← callsOf_append]
      · simp [Session.call, call_of_open hclosed, hclosed, h.reported]
      · simp [Session.call, hclosed, hrefused, hfilled, hframe]
      all_goals
        rw [Session.call, hframe.2.2.2.2.1, hclosed] at hend
        cases hend

/-- A call that fills its place has returned. -/
theorem fill (h : s.Accounts) (hseated : s.bus.Seated) (hopen : s.bus.closed = false)
    (hplaced : c ∈ s.bus.placed) : (s.fill c).Accounts := by
  obtain ⟨hrefused, hfilled⟩ := h.kept hopen
  have hcall : c ∈ s.bus.underWay := List.mem_append_left _ hplaced
  have hclosed : (s.fill c).bus.closed ≠ true := by
    change s.bus.closed ≠ true
    simp [hopen]
  refine ⟨fun collector => ?_, h.reported, fun _ => ⟨hrefused, ?_⟩,
    fun hend => absurd hend hclosed, fun hend => absurd hend hclosed⟩
  · have htold := h.told collector
    rw [hrefused, List.append_nil, callsOf_append, ← callsOf_cons_erase hseated.distinct hcall,
      ← callsOf_append] at htold
    rw [Session.fill, underWay_fill hplaced, hrefused, ← htold]
    simp
  · change (s.filled ++ [c]).map (·.push) = s.dispatched ++ (s.bus.queue ++ [c.push])
    rw [List.map_append, hfilled, List.append_assoc]
    rfl

/-- A call that finds the queue closed has returned, and its push is reported as dropped. -/
theorem refuse (h : s.Accounts) (hseated : s.bus.Seated) (hclosed : s.bus.closed = true)
    (hcall : c ∈ s.bus.underWay) : (s.refuse c).Accounts := by
  refine ⟨fun collector => ?_, ?_, fun hopen => ?_, h.settled, fun _ hrunning => ?_⟩
  · have htold := h.told collector
    rw [callsOf_append, ← callsOf_cons_erase hseated.distinct hcall, ← callsOf_append] at htold
    rw [Session.refuse, underWay_refuse hseated.nodup, ← htold]
    simp
  · change refusals (s.notices ++ [.pushDropped c.push]) = (s.refused ++ [c]).map (·.push)
    rw [refusals_append, h.reported, List.map_append]
    rfl
  · change s.bus.closed = false at hopen
    rw [hclosed] at hopen
    cases hopen
  · -- A bus that ended by itself has left no call under way.
    obtain ⟨hdeserted, -⟩ := h.exhausted hclosed hrunning
    have hnone : s.bus.underWay = [] := by
      rw [isDeserted, Bool.and_eq_true, List.isEmpty_iff] at hdeserted
      exact hdeserted.2
    rw [hnone] at hcall
    cases hcall

end Accounts

/-- A bus whose phase is not the end takes pushes. -/
theorem open_of_phase (h : s.Sound capacity handlers) (hphase : s.bus.phase ≠ .ended) :
    s.bus.closed = false :=
  Bool.eq_false_iff.2 fun hclosed => hphase (h.closed_iff.1 hclosed)

/-- **Calls that are made keep the invariant.** -/
theorem sound_call (h : s.Sound capacity handlers) (hcollecting : s.bus.collecting = true)
    (hidle : s.bus.isCalling c.collector = false) : (s.call c).Sound capacity handlers := by
  obtain ⟨hcapacity, hhandlers, -, hphase, hclosed, -⟩ := call_frame s.bus c
  refine ⟨hcapacity.trans h.capacity_eq, hhandlers.trans h.handlers_eq, h.seated.call hidle, ?_,
    h.accounts.call hcollecting hidle, orderly_congr hphase hhandlers rfl rfl h.orderly⟩
  change (s.bus.call c).1.closed = true ↔ (s.bus.call c).1.phase = .ended
  rw [hclosed, hphase, h.closed_iff]

/-- **Calls that fill their places keep the invariant.** -/
theorem sound_fill (h : s.Sound capacity handlers) (hopen : s.bus.closed = false)
    (hplaced : c ∈ s.bus.placed) : (s.fill c).Sound capacity handlers :=
  ⟨h.capacity_eq, h.handlers_eq, h.seated.fill hplaced, h.closed_iff,
    h.accounts.fill h.seated hopen hplaced, orderly_congr rfl rfl rfl rfl h.orderly⟩

/-- **Calls that find the queue closed keep the invariant.** -/
theorem sound_refuse (h : s.Sound capacity handlers) (hclosed : s.bus.closed = true)
    (hcall : c ∈ s.bus.underWay) : (s.refuse c).Sound capacity handlers :=
  ⟨h.capacity_eq, h.handlers_eq, h.seated.refuse hclosed c, h.closed_iff,
    h.accounts.refuse h.seated hclosed hcall, orderly_congr rfl rfl rfl rfl h.orderly⟩

/-- The begin of the dispatch changes nothing but the phase. -/
theorem sound_start (h : s.Sound capacity handlers) :
    Sound capacity handlers { s with bus := s.bus.start } := by
  cases hphase : s.bus.phase with
  | waiting =>
      have hopen := open_of_phase h (by simp [hphase])
      have hbus : s.bus.start = { s.bus with phase := .idle } := by
        simp [Bus.start, hphase, hopen]
      have hrecord := (orderly_iff_of_not_busy (by simp [hphase])).1 h.orderly
      rw [hbus]
      have haccounts := h.accounts
      refine ⟨h.capacity_eq, h.handlers_eq, h.seated.congr rfl rfl rfl rfl rfl, by simp [hopen],
        ⟨haccounts.told, haccounts.reported, haccounts.kept, haccounts.settled,
          haccounts.exhausted⟩, ?_⟩
      exact (orderly_iff_of_not_busy (by simp)).2 hrecord
  | idle | busy | ended =>
      have hbus : s.bus.start = s.bus := by simp [Bus.start, hphase]
      rw [hbus]
      exact h

/-- The end of the dispatch drops what is queued without a word. -/
theorem sound_finish (h : s.Sound capacity handlers) (hphase : s.bus.phase = .idle)
    (hreason : s.bus.stopped = true ∨ s.bus.queue = [] ∧ s.bus.isDeserted = true) :
    (s.advanced s.bus.finish).Sound capacity handlers := by
  have hopen := open_of_phase h (by simp [hphase])
  obtain ⟨hrefused, hfilled⟩ := h.accounts.kept hopen
  have hrecord := (orderly_iff_of_not_busy (by simp [hphase])).1 h.orderly
  have hdispatched : (s.advanced s.bus.finish).dispatched = s.dispatched := List.append_nil _
  refine ⟨h.capacity_eq, h.handlers_eq, h.seated.finish, ⟨fun _ => rfl, fun _ => rfl⟩,
    ⟨h.accounts.told, h.accounts.reported, fun hopen' => (by cases hopen'), ?_, ?_⟩, ?_⟩
  · refine fun _ => ⟨rfl, s.bus.queue, hdispatched ▸ hfilled, ?_⟩
    exact Nat.le_trans (Nat.le_add_right _ _) h.seated.bounded
  · intro _ hrunning
    change s.bus.stopped = false at hrunning
    obtain hstopped | ⟨hqueue, hdeserted⟩ := hreason
    · rw [hrunning] at hstopped
      cases hstopped
    · rw [hqueue, List.append_nil] at hfilled
      exact ⟨hdeserted, hrefused, hdispatched ▸ hfilled⟩
  · refine (orderly_iff_of_not_busy (fun _ _ heq => by cases heq)).2 ?_
    change s.record ++ [] = (s.dispatched ++ []).flatMap (rounds s.bus.handlers)
    rw [List.append_nil, List.append_nil, hrecord]

/-- The dispatch takes up the next push, and offers it to the first handler. -/
theorem sound_take (h : s.Sound capacity handlers) {push : Image.Push} {queue : List Image.Push}
    (hphase : s.bus.phase = .idle) (hqueue : s.bus.queue = push :: queue) :
    (s.advanced (givePlaces { s.bus with queue, phase := .busy push s.bus.handlers })).Sound
      capacity handlers := by
  have hopen := open_of_phase h (by simp [hphase])
  obtain ⟨hrefused, hfilled⟩ := h.accounts.kept hopen
  have hrecord := (orderly_iff_of_not_busy (by simp [hphase])).1 h.orderly
  let taken : Bus H := { s.bus with queue, phase := .busy push s.bus.handlers }
  have hbounded : taken.taken ≤ taken.capacity := by
    have hmore := h.seated.bounded
    rw [Bus.taken, hqueue, List.length_cons] at hmore
    exact Nat.le_trans (Nat.add_le_add_right (Nat.le_succ _) _) hmore
  have hclosed : taken.givePlaces.closed ≠ true := by simp [taken, hopen]
  refine ⟨h.capacity_eq, h.handlers_eq, .givePlaces hbounded h.seated.distinct, ?_,
    ⟨fun collector => ?_, h.accounts.reported, fun _ => ⟨hrefused, ?_⟩,
      fun hend => absurd hend hclosed, fun hend => absurd hend hclosed⟩, ?_⟩
  · exact ⟨fun hend => absurd hend hclosed, fun hend => by cases hend⟩
  · change callsOf collector (s.filled ++ s.refused ++ taken.givePlaces.underWay) =
      callsOf collector s.calls
    rw [underWay_givePlaces, ← h.accounts.told]
    rfl
  · change s.filled.map (·.push) = s.dispatched ++ [push] ++ queue
    rw [hfilled, hqueue, List.append_assoc]
    rfl
  · have hbusy : (s.advanced taken.givePlaces).bus.phase = .busy push s.bus.handlers := rfl
    refine (orderly_iff_of_busy hbusy).2 ⟨s.dispatched, [], rfl, rfl, ?_⟩
    change s.record ++ offer push s.bus.handlers = _ ++ [] ++ offer push s.bus.handlers
    rw [hrecord, List.append_nil]
    rfl

/-- When all handlers are done with the push in hand, the dispatch is through with it. -/
theorem sound_rest (h : s.Sound capacity handlers) {push : Image.Push}
    (hphase : s.bus.phase = .busy push []) :
    (s.advanced { s.bus with phase := .idle }).Sound capacity handlers := by
  have hopen := open_of_phase h (by simp [hphase])
  obtain ⟨earlier, through, hdispatched, hhandlers, hrecord⟩ :=
    (orderly_iff_of_busy hphase).1 h.orderly
  have hsame : s.advanced { s.bus with phase := .idle } =
      { s with bus := { s.bus with phase := .idle } } := by
    simp [advanced, Phase.inHand, Phase.offers]
  have haccounts := h.accounts
  rw [hsame]
  refine ⟨h.capacity_eq, h.handlers_eq, h.seated.congr rfl rfl rfl rfl rfl, by simp [hopen],
    ⟨haccounts.told, haccounts.reported, haccounts.kept, haccounts.settled,
      haccounts.exhausted⟩, ?_⟩
  refine (orderly_iff_of_not_busy (fun _ _ heq => by cases heq)).2 ?_
  change s.record = s.dispatched.flatMap (rounds s.bus.handlers)
  rw [List.append_nil] at hhandlers
  rw [hrecord, hdispatched, hhandlers]
  simp [offer]

/-- **Every move of the dispatch keeps the invariant.** -/
theorem sound_advance (h : s.Sound capacity handlers) {b : Bus H}
    (hmove : s.bus.advance? = some b) :
    (s.advanced b).Sound capacity handlers := by
  rcases advance?_cases hmove with ⟨hphase, hreason, rfl⟩ |
    ⟨push, queue, hphase, -, hqueue, rfl⟩ | ⟨push, hphase, rfl⟩
  · exact sound_finish h hphase hreason
  · exact sound_take h hphase hqueue
  · exact sound_rest h hphase

/-- **A handler that is done makes way for the next one**, however its work ended. -/
theorem sound_handled (h : s.Sound capacity handlers) {push : Image.Push} {handler : H}
    {rest : List H} (ending : Ending) (hphase : s.bus.phase = .busy push (handler :: rest)) :
    (s.handled push handler ending).Sound capacity handlers := by
  have hopen := open_of_phase h (by simp [hphase])
  obtain ⟨earlier, through, hdispatched, hhandlers, hrecord⟩ :=
    (orderly_iff_of_busy hphase).1 h.orderly
  rw [handled, handled_of_busy hphase]
  have haccounts := h.accounts
  refine ⟨h.capacity_eq, h.handlers_eq, h.seated.congr rfl rfl rfl rfl rfl, by simp [hopen],
    ⟨haccounts.told, ?_, haccounts.kept, haccounts.settled, haccounts.exhausted⟩, ?_⟩
  · change refusals (s.notices ++ ending.outcome.notices push) = _
    rw [refusals_append, refusals_outcome, List.append_nil, haccounts.reported]
  · refine (orderly_iff_of_busy rfl).2 ⟨earlier, through ++ [handler], hdispatched, ?_, ?_⟩
    · rw [hhandlers]
      simp
    · rw [hrecord]
      simp [rounds, offer, Phase.offers]

/-- **Every step keeps the invariant.** -/
theorem sound_step (h : s.Sound capacity handlers) (hstep : Step channel s s') :
    s'.Sound capacity handlers := by
  cases hstep with
  | call c hcollecting hidle => exact sound_call h hcollecting hidle
  | fill hopen hplaced => exact sound_fill h hopen hplaced
  | refuse hclosed hcall => exact sound_refuse h hclosed hcall
  | start => exact sound_start h
  | advance hmove => exact sound_advance h hmove
  | handled ending hphase => exact sound_handled h ending hphase
  | stop =>
      have haccounts := h.accounts
      exact ⟨h.capacity_eq, h.handlers_eq, h.seated.congr rfl rfl rfl rfl rfl, h.closed_iff,
        ⟨haccounts.told, haccounts.reported, haccounts.kept, haccounts.settled,
          fun _ hrunning => (by cases hrunning)⟩, h.orderly⟩
  | endCollecting =>
      have haccounts := h.accounts
      refine ⟨h.capacity_eq, h.handlers_eq, h.seated.congr rfl rfl rfl rfl rfl, h.closed_iff,
        ⟨haccounts.told, haccounts.reported, haccounts.kept, haccounts.settled,
          fun hclosed hrunning => ?_⟩, h.orderly⟩
      obtain ⟨hdeserted, hrest⟩ := haccounts.exhausted hclosed hrunning
      rw [isDeserted, Bool.and_eq_true] at hdeserted
      exact ⟨hdeserted.2, hrest⟩

/-- **Every run keeps the invariant.** -/
theorem sound_run (h : s.Sound capacity handlers) (hrun : Leads channel s s') :
    s'.Sound capacity handlers := by
  induction hrun with
  | refl => exact h
  | tail _ hstep ih => exact sound_step ih hstep

end Session

end ImageRollout.Bus
