import Mathlib.Logic.Relation
import ImageRollout.Proofs.Rerun.Threads

/-!
# Reruns get on

A rerun under way waits for an answer or for the end of a pause, and for nothing else; as soon as
that has come it moves.  It has only so many moves: two for the deletion, two for each creation, and
two for each pause between them.

* `isSome_move?`: when a rerun can move.
* `begins_of_move`: what it waits for after a move, and until when.
* `left_lt_of_move`: every move brings it nearer to its end.
* `leads_ended`: its moves can bring it there, unless it waits for an answer that never comes.
-/

namespace ImageRollout.Rerun

open Cluster Kubernetes Watch

namespace Stage

/-- How many moves a rerun that comes to the stage has left at most. -/
def left : Stage → Nat
  | deleting => 4 * attempts
  | creating a => 4 * (attempts - a) + 2
  | pausing a => 4 * (attempts - a)

variable {stage stage' : Stage}

/-- At every stage there are at least two moves to come. -/
theorem two_le_left (h : stage.Valid) : 2 ≤ stage.left := by
  cases stage with
  | deleting => simp [left, attempts]
  | creating a => simp [left]
  | pausing a =>
      obtain ⟨-, hlast⟩ := h
      simp only [left, attempts]
      omega

/-- There are never more than twelve moves to come. -/
theorem left_le (h : stage.Valid) : stage.left ≤ 12 := by
  cases stage with
  | deleting => simp [left, attempts]
  | creating a | pausing a =>
      obtain ⟨hfirst, -⟩ := h
      simp only [left, attempts]
      omega

/-- A stage takes two moves: one to begin with what is to be waited for, and one when it has
come. -/
theorem left_of_goesOn (h : stage.Valid) {accepted : Bool}
    (hnext : stage.next accepted = .goesOn stage') : stage.left = stage'.left + 2 := by
  cases stage with
  | deleting =>
      cases accepted with
      | true =>
          cases hnext
          rfl
      | false => cases hnext
  | creating a =>
      simp only [next] at hnext
      split at hnext
      · cases hnext
      · split at hnext
        · cases hnext
          rfl
        · cases hnext
  | pausing a =>
      obtain ⟨-, hlast⟩ := h
      cases hnext
      simp only [left, attempts]
      omega

end Stage

/-- A wait is over when it is due, if it ever is. -/
theorem isSome_over? {wait : Wait} (hwait : wait ≠ .ready) (s : Site) :
    (s.over? wait).isSome = wait.due?.any fun due => !s.now.before due := by
  cases wait with
  | ready => exact absurd rfl hwait
  | reply due reply =>
      cases reply with
      | silence => rfl
      | accepted | refused =>
          simp only [Site.over?, Wait.due?, Option.any_some]
          split <;> simp_all
  | pause wake =>
      simp only [Site.over?, Wait.due?, Option.any_some]
      split <;> simp_all

namespace Desk

/-- Whether the rerun of a name waits for nothing at a moment, or for something that is due. -/
def isDue (name : String) (now : Moment) (d : Desk) : Bool :=
  match List.lookup name d.waits with
  | none => true
  | some wait => wait.due?.any fun due => !now.before due

/-- Whether the rerun of a name waits for an answer that never comes. -/
def isForsaken (name : String) (d : Desk) : Bool :=
  match List.lookup name d.waits with
  | some (.reply _ .silence) => true
  | _ => false

/-- How many moves the rerun of a name has left at most. -/
def left (name : String) (d : Desk) : Nat :=
  match List.lookup name d.reruns.tasks with
  | none => 0
  | some t => t.stage.left - if (List.lookup name d.waits).isSome then 1 else 0

/-- The rerun of a name moves. -/
def Moves (n name : String) (d d' : Desk) : Prop :=
  ∃ t s, (name, t) ∈ d.reruns.tasks ∧ d.move? n name t s = some d'

variable {n name : String} {t : Task} {s : Site} {d d' : Desk}

/-- What a rerun waits for is what its stage asks for. -/
theorem awaits_of_mem (h : d.Steady n) (htask : (name, t) ∈ d.reruns.tasks) {wait : Wait}
    (hwait : List.lookup name d.waits = some wait) : t.stage.Awaits wait :=
  (h.threads name).awaits t wait (Table.lookup_of_mem h.kept.distinct htask) hwait

/-- A rerun is at a stage that reruns come to. -/
theorem valid_of_mem (h : d.Steady n) (htask : (name, t) ∈ d.reruns.tasks) : t.stage.Valid :=
  (h.threads name).valid t (Table.lookup_of_mem h.kept.distinct htask)

/-- **A rerun moves as soon as what it waits for has come**, and not before. -/
theorem isSome_move? (h : d.Steady n) (htask : (name, t) ∈ d.reruns.tasks) (s : Site) :
    (d.move? n name t s).isSome = d.isDue name s.now := by
  rw [move?, Option.isSome_map, isDue, Controller.moveRerun?]
  cases hwait : List.lookup name d.waits with
  | none => cases t.stage <;> rfl
  | some wait =>
      have hready : wait ≠ .ready := by
        rintro rfl
        exact awaits_of_mem h htask hwait
      refine Eq.trans ?_ (isSome_over? hready s)
      cases hover : s.over? wait with
      | none => simp only [hover, Option.isSome_none]
      | some reply => cases hnext : t.stage.next (reply = .accepted) <;> simp [hover, hnext]

/-- **What a rerun waits for** after a move before which it waited for nothing: the answer to what
it asks, which takes an exchange, or the end of a pause. -/
theorem begins_of_move (h : d.Steady n) (htask : (name, t) ∈ d.reruns.tasks)
    (hwait : List.lookup name d.waits = none) (hmove : d.move? n name t s = some d') :
    (∃ request content, d'.record = d.record ++ [.asked request content] ∧
      List.lookup name d'.waits =
        some (.reply s.now.afterExchange (s.server.answer request).2)) ∨
    ((∃ a, t.stage = .pausing a) ∧ d'.record = d.record ∧
      List.lookup name d'.waits = some (.pause (s.now.afterWait pause))) := by
  rcases move_cases h.kept htask hmove with
    ⟨-, -, ⟨-, hrecord, request, content, hcall, hwaits⟩ | ⟨hasks, hrecord, hwaits⟩⟩ |
    ⟨wait, accepted, hsome, -⟩
  · refine .inl ⟨request, content, hcall ▸ hrecord, ?_⟩
    rw [hwaits, Table.lookup_insert, if_pos rfl]
  · refine .inr ⟨?_, hrecord.trans (List.append_nil _), ?_⟩
    · cases hstage : t.stage with
      | pausing a => exact ⟨a, rfl⟩
      | deleting | creating _ => simp [hstage, Stage.asks] at hasks
    · rw [hwaits, Table.lookup_insert, if_pos rfl]
  · rw [hwait] at hsome
    cases hsome

/-- **Every move brings a rerun nearer to its end.** -/
theorem left_lt_of_move (h : d.Steady n) (htask : (name, t) ∈ d.reruns.tasks)
    (hmove : d.move? n name t s = some d') : d'.left name < d.left name := by
  have hlookup := Table.lookup_of_mem h.kept.distinct htask
  have hleast := Stage.two_le_left (valid_of_mem h htask)
  rcases move_cases h.kept htask hmove with
    ⟨hwait, hreruns, hbegins⟩ |
    ⟨wait, accepted, hwait, hwaits, -, ⟨stage, hnext, hreruns, -⟩ | ⟨-, hreruns, -⟩⟩
  · have hlater : (List.lookup name d'.waits).isSome = true := by
      rcases hbegins with ⟨-, -, _, _, -, hwaits⟩ | ⟨-, -, hwaits⟩ <;>
        rw [hwaits, Table.lookup_insert, if_pos rfl] <;> rfl
    rw [left, left, hreruns, hlookup, hwait]
    simp only [hlater, if_true, Option.isSome_none, Bool.false_eq_true, if_false]
    omega
  · have hstage := Stage.left_of_goesOn (valid_of_mem h htask) hnext
    rw [left, left, hreruns, Reruns.lookup_moveTo, if_pos rfl, hlookup, hwait, hwaits,
      Table.lookup_erase, if_pos rfl]
    simp only [Option.map_some, Option.isSome_none, Option.isSome_some, Bool.false_eq_true,
      if_false, if_true]
    omega
  · rw [left, left, hreruns, Reruns.finish, Table.lookup_erase, if_pos rfl, hlookup, hwait]
    simp only [Option.isSome_some, if_true]
    omega

/-- A rerun never has more moves left than at its beginning. -/
theorem left_le (h : d.Steady n) (name : String) : d.left name ≤ 12 := by
  rw [left]
  cases hlookup : List.lookup name d.reruns.tasks with
  | none => exact Nat.zero_le _
  | some t =>
      have hmost := Stage.left_le ((h.threads name).valid t hlookup)
      exact Nat.le_trans (Nat.sub_le _ _) hmost

/-- An undisturbed server answers. -/
theorem answer_ne_silence (request : Request) : (({} : Server).answer request).2 ≠ .silence := by
  simp only [Server.answer, Server.meet?, Server.undisturbed]
  split <;> simp

/-- Where a server answers, a rerun that moves is not left waiting for ever. -/
theorem isForsaken_of_move (h : d.Steady n) (htask : (name, t) ∈ d.reruns.tasks)
    (hserver : s.server = {}) (hmove : d.move? n name t s = some d') :
    d'.isForsaken name = false := by
  rw [isForsaken]
  rcases move_cases h.kept htask hmove with
    ⟨-, -, ⟨-, -, request, -, -, hwaits⟩ | ⟨-, -, hwaits⟩⟩ | ⟨_, -, -, hwaits, -⟩
  · rw [hwaits, Table.lookup_insert, if_pos rfl, hserver]
    cases hreply : (({} : Server).answer request).2 with
    | silence => exact absurd hreply (answer_ne_silence request)
    | accepted | refused => rfl
  · rw [hwaits, Table.lookup_insert, if_pos rfl]
  · rw [hwaits, Table.lookup_erase, if_pos rfl]

/-- There is a moment at which a rerun moves, unless it waits for an answer that never comes. -/
theorem exists_isDue (h : d.Steady n) (htask : (name, t) ∈ d.reruns.tasks)
    (hanswered : d.isForsaken name = false) : ∃ now, d.isDue name now = true := by
  cases hwait : List.lookup name d.waits with
  | none => exact ⟨⟨0, 0⟩, by rw [isDue, hwait]⟩
  | some wait =>
      have hawaits := awaits_of_mem h htask hwait
      have hbefore (m : Moment) : m.before m = false := by simp [Moment.before]
      cases wait with
      | ready => exact hawaits.elim
      | pause wake => exact ⟨wake, by simp [isDue, hwait, Wait.due?, hbefore]⟩
      | reply due reply =>
          cases reply with
          | silence => simp [isForsaken, hwait] at hanswered
          | accepted | refused => exact ⟨due, by simp [isDue, hwait, Wait.due?, hbefore]⟩

/-- **A rerun can come to its end by its own moves**, unless it waits for an answer that never
comes. -/
theorem leads_ended (h : d.Steady n) (htask : (name, t) ∈ d.reruns.tasks)
    (hanswered : d.isForsaken name = false) :
    ∃ d', Relation.ReflTransGen (Moves n name) d d' ∧ d'.reruns.tasks.has name = false := by
  induction hleft : d.left name using Nat.strongRecOn generalizing d t with
  | _ left ih =>
      subst hleft
      obtain ⟨now, hdue⟩ := exists_isDue h htask hanswered
      rw [← isSome_move? h htask { now }, Option.isSome_iff_exists] at hdue
      obtain ⟨d', hmove⟩ := hdue
      have hmoves : Moves n name d d' := ⟨t, _, htask, hmove⟩
      cases hhas : d'.reruns.tasks.has name with
      | false => exact ⟨d', .single hmoves, hhas⟩
      | true =>
          obtain ⟨t', hlookup⟩ := Option.isSome_iff_exists.1 hhas
          have htask' := Table.mem_of_lookup hlookup
          obtain ⟨d'', hleads, hended⟩ := ih _ (left_lt_of_move h htask hmove)
            (steady_step h (.move htask hmove)) htask' (isForsaken_of_move h htask rfl hmove) rfl
          exact ⟨d'', .head hmoves hleads, hended⟩

/-- A rerun under way gets on. -/
structure GetsOn (n name : String) (t : Task) (d : Desk) : Prop where
  /-- It can move when it waits for nothing or when that has come, and not before. -/
  moves : ∀ s, (d.move? n name t s).isSome = d.isDue name s.now
  /-- Where it waits for nothing, it asks and waits for the answer, or begins a pause. -/
  begins : List.lookup name d.waits = none → ∀ s d', d.move? n name t s = some d' →
    (∃ request content, d'.record = d.record ++ [.asked request content] ∧
      List.lookup name d'.waits =
        some (.reply s.now.afterExchange (s.server.answer request).2)) ∨
    ((∃ a, t.stage = .pausing a) ∧ d'.record = d.record ∧
      List.lookup name d'.waits = some (.pause (s.now.afterWait 1000)))
  /-- It has so many moves left, and one less after each of them. -/
  nears : ∀ s d', d.move? n name t s = some d' → d'.left name < d.left name
  /-- Unless it waits for an answer that never comes, it can come to its end by its own moves. -/
  ends : d.isForsaken name = false →
    ∃ d', Relation.ReflTransGen (Moves n name) d d' ∧ d'.reruns.tasks.has name = false

/-- **A rerun under way gets on.** -/
theorem getsOn (h : d.Steady n) (htask : (name, t) ∈ d.reruns.tasks) : d.GetsOn n name t where
  moves := isSome_move? h htask
  begins := fun hwait _ _ hmove => begins_of_move h htask hwait hmove
  nears := fun _ _ hmove => left_lt_of_move h htask hmove
  ends := leads_ended h htask

end Desk

end ImageRollout.Rerun
