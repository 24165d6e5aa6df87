import ImageRollout.Bus

/-!
# What a move does to the queue

The bus as its moves see it.  Giving places to waiting calls keeps the order of all calls and goes
on as far as there are places, a call returns in one of two ways, and the dispatch has exactly three
moves of its own.

* `underWay_givePlaces`, `taken_givePlaces_le`, `waiting_givePlaces`: giving places to calls.
* `start_frame`, `handled_of_busy`: the begin of the dispatch, and a handler that is done.
* `return?_cases`: how a call returns.
* `advance?_cases`: everything that one move of the dispatch can do.
-/

namespace ImageRollout.Bus

variable {H : Type}

section Places

@[simp] theorem closed_givePlaces (b : Bus H) : b.givePlaces.closed = b.closed := rfl

@[simp] theorem queue_givePlaces (b : Bus H) : b.givePlaces.queue = b.queue := rfl

/-- Calls get their places first come, first served. -/
@[simp] theorem underWay_givePlaces (b : Bus H) : b.givePlaces.underWay = b.underWay := by
  simp [underWay, givePlaces]

/-- No more places are given than there are. -/
theorem taken_givePlaces_le {b : Bus H} (h : b.taken ≤ b.capacity) :
    b.givePlaces.taken ≤ b.capacity := by
  simp only [taken, givePlaces, List.length_append, List.length_take] at h ⊢
  omega

/-- A call waits only while all places are taken. -/
theorem waiting_givePlaces (b : Bus H) :
    b.givePlaces.waiting = [] ∨ b.capacity ≤ b.givePlaces.taken := by
  by_cases h : b.waiting.length ≤ b.capacity - b.taken
  · exact .inl (List.drop_eq_nil_of_le h)
  · right
    simp only [taken, givePlaces, List.length_append, List.length_take] at h ⊢
    omega

/-- A call that fills its place makes no other place free. -/
theorem taken_fill {b : Bus H} {c : Call} (h : c ∈ b.placed) : (b.fill c).taken = b.taken := by
  have hpos := List.length_pos_of_mem h
  simp only [taken, fill, List.length_append, List.length_singleton, List.length_erase_of_mem h]
  omega

/-- A call that fills its place is not under way any more. -/
theorem underWay_fill {b : Bus H} {c : Call} (h : c ∈ b.placed) :
    (b.fill c).underWay = b.underWay.erase c :=
  (List.erase_append_left _ h).symm

/-- A call that is refused is not under way any more. -/
theorem underWay_refuse {b : Bus H} (hdistinct : b.underWay.Nodup) (c : Call) :
    (b.refuse c).1.underWay = b.underWay.erase c := by
  change b.placed.erase c ++ b.waiting.erase c = (b.placed ++ b.waiting).erase c
  rw [List.erase_append]
  split
  next hplaced =>
    have hwaiting : c ∉ b.waiting :=
      fun hc => (List.nodup_append.1 hdistinct).2.2 c hplaced c hc rfl
    rw [List.erase_of_not_mem hwaiting]
  next hplaced => rw [List.erase_of_not_mem hplaced]

end Places

/-- The begin of the dispatch changes nothing but the phase. -/
theorem start_frame (b : Bus H) :
    b.start.closed = b.closed ∧ b.start.stopped = b.stopped ∧
      b.start.underWay = b.underWay := by
  rw [start]
  split
  · split <;> exact ⟨rfl, rfl, rfl⟩
  · exact ⟨rfl, rfl, rfl⟩

/-- A handler that is done leaves the push in hand to the handlers after it. -/
theorem handled_of_busy {b : Bus H} {push : Image.Push} {handler : H} {rest : List H}
    (h : b.phase = .busy push (handler :: rest)) (outcome : Outcome) :
    b.handled outcome = ({ b with phase := .busy push rest }, outcome.notices push) := by
  rw [handled, h]

/-- **How a call returns.**  As long as the queue is open the first call with a place fills it;
afterwards the first call of all is refused. -/
theorem return?_cases {b b' : Bus H} {notices : List Notice} (h : b.return? = some (b', notices)) :
    (∃ c, b.closed = false ∧ b.placed.head? = some c ∧ b' = b.fill c ∧ notices = []) ∨
      (∃ c, b.closed = true ∧ c ∈ b.underWay ∧ (b', notices) = b.refuse c) := by
  rw [return?] at h
  split at h
  next hclosed =>
    obtain ⟨c, hc, hrefused⟩ := Option.map_eq_some_iff.1 h
    exact .inr ⟨c, hclosed, List.mem_of_mem_head? hc, hrefused.symm⟩
  next hopen =>
    obtain ⟨c, hc, hfilled⟩ := Option.map_eq_some_iff.1 h
    cases hfilled
    exact .inl ⟨c, Bool.eq_false_iff.2 hopen, hc, rfl, rfl⟩

/-- **The moves of the dispatch.**  It ends, because it is to or because nothing is left and nothing
can come any more; or it takes the next push; or it is through with the push in hand. -/
theorem advance?_cases {b b' : Bus H} (h : b.advance? = some b') :
    (b.phase = .idle ∧ (b.stopped = true ∨ b.queue = [] ∧ b.isDeserted = true) ∧
      b' = b.finish) ∨
    (∃ push queue, b.phase = .idle ∧ b.stopped = false ∧ b.queue = push :: queue ∧
      b' = givePlaces { b with queue, phase := .busy push b.handlers }) ∨
    (∃ push, b.phase = .busy push [] ∧ b' = { b with phase := .idle }) := by
  rw [advance?] at h
  cases hphase : b.phase with
  | waiting | ended =>
      rw [hphase] at h
      cases h
  | idle =>
      rw [hphase] at h
      cases hstopped : b.stopped with
      | true =>
          simp only [hstopped, if_true, Option.some.injEq] at h
          exact .inl ⟨rfl, .inl rfl, h.symm⟩
      | false =>
          cases hqueue : b.queue with
          | cons push queue =>
              simp only [hstopped, hqueue, Bool.false_eq_true, if_false, Option.some.injEq] at h
              exact .inr (.inl ⟨push, queue, rfl, rfl, rfl, h.symm⟩)
          | nil =>
              simp only [hstopped, hqueue, Bool.false_eq_true, if_false,
                Option.ite_none_right_eq_some, Option.some.injEq] at h
              exact .inl ⟨rfl, .inr ⟨rfl, h.1⟩, h.2.symm⟩
  | busy push rest =>
      rw [hphase] at h
      cases rest with
      | nil =>
          simp only [Option.some.injEq] at h
          exact .inr (.inr ⟨push, rfl, h.symm⟩)
      | cons _ _ => cases h

end ImageRollout.Bus
