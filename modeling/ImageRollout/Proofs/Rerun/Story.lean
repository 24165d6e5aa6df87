import ImageRollout.Cluster.Controller

/-!
# The story of a rerun

What a rerun asks of the API server follows one of three scripts: the deletion is refused, or one
of the three creations is accepted, or all three are refused.  Between two moves a rerun has always
played the beginning of a script, and how much of it can be read off its stage.

* `Script`, `Chapter.Lawful`: what a rerun can ask for, from its beginning to its end.
* `next_cases`: after each answer the script goes on, or it has come to its end.
* `exhausted_of_leavesDeleted`: how a job comes to stay deleted.
-/

namespace ImageRollout.Rerun

open Cluster Kubernetes Watch

/-- What is recorded of the reruns of a namespace. -/
inductive Mark where
  /-- Something was seen of the jobs. -/
  | heard (e : Event Object)
  /-- A push came in while these jobs were known. -/
  | received (push : Image.Push) (jobs : List Job)
  /-- The push began a rerun of the job. -/
  | began (push : Image.Push) (job : Job)
  /-- The push passed over the job. -/
  | skipped (push : Image.Push) (job : Job)
  | asked (request : Request) (content : Content)
  | answered (name : String) (accepted : Bool)
  | ended (name : String) (panicked : Bool)

namespace Mark

/-- Whether the mark is left by a rerun of the name. -/
def isOf (name : String) : Mark → Bool
  | heard _ | received .. | skipped .. => false
  | began _ job => job.name = name
  | asked request _ => request.name = name
  | answered other _ | ended other _ => other = name

/-- Whether a rerun of the name is under way behind the mark, given whether one was before it. -/
def leavesAlive (name : String) (before : Bool) : Mark → Bool
  | began _ job => job.name = name || before
  | ended other _ => other ≠ name && before
  | heard _ | received .. | skipped .. | asked .. | answered .. => before

/-- Whether the mark is left by a rerun on its way. -/
def isOnWay : Mark → Bool
  | asked .. | answered .. | ended .. => true
  | heard _ | received .. | began .. | skipped .. => false

end Mark

/-- Whether a rerun of the name has begun and not ended. -/
def alive (name : String) (record : List Mark) : Bool :=
  record.foldl (Mark.leavesAlive name) false

/-- Whether a rerun is under way goes on from what was recorded earlier. -/
theorem alive_append (name : String) (record marks : List Mark) :
    alive name (record ++ marks) = marks.foldl (Mark.leavesAlive name) (alive name record) := by
  rw [alive, List.foldl_append, ← alive]

/-- Marks of other reruns do not matter. -/
theorem alive_of_others {name : String} {marks : List Mark}
    (hmarks : ∀ m ∈ marks, m.isOf name = false) (record : List Mark) :
    alive name (record ++ marks) = alive name record := by
  rw [alive_append]
  induction marks with
  | nil => rfl
  | cons m rest ih =>
      have hm := hmarks m List.mem_cons_self
      have hrest := ih fun m hm => hmarks m (List.mem_cons_of_mem _ hm)
      have hsame : m.leavesAlive name (alive name record) = alive name record := by
        cases m <;> simp_all [Mark.isOf, Mark.leavesAlive]
      rw [List.foldl_cons, hsame, hrest]

section Scripts

variable (n : String) (j : Job)

/-- The deletion of a job is asked for. -/
def deletion : Mark :=
  .asked { verb := .delete, kind := .job, namespaceName := n, name := j.name } .deletion

/-- The creation of the copy of a job is asked for. -/
def creation : Mark :=
  .asked { verb := .create, kind := .job, namespaceName := n, name := j.name } (.job (copy j))

/-- An attempt to create the copy. -/
def attempt (accepted : Bool) : List Mark := [creation n j, .answered j.name accepted]

/-- The job was deleted, and so many attempts to create the copy were refused. -/
def refusals (k : Nat) : List Mark :=
  [deletion n j, .answered j.name true] ++ (List.replicate k (attempt n j false)).flatten

/-- All that a rerun asks for, and how it is answered. -/
inductive Script : List Mark → Prop
  | spared : Script [deletion n j, .answered j.name false]
  | created {k : Nat} (hk : k < 3) : Script (refusals n j k ++ attempt n j true)
  | lost : Script (refusals n j 3)

/-- The beginning of a script. -/
def Begun (marks : List Mark) : Prop := ∃ script, Script n j script ∧ marks <+: script

end Scripts

/-- A rerun that has ended. -/
structure Chapter where
  /-- The push that began the rerun. -/
  push : Image.Push
  job : Job
  calls : List Mark
  panicked : Bool

namespace Chapter

/-- What is recorded of the rerun. -/
def text (c : Chapter) : List Mark :=
  .began c.push c.job :: (c.calls ++ [.ended c.job.name c.panicked])

/-- Only a panic cuts a script short. -/
def Lawful (n : String) (c : Chapter) : Prop :=
  if c.panicked then Begun n c.job c.calls else Script n c.job c.calls

/-- The job was deleted, and no creation was accepted. -/
def LeavesDeleted (n : String) (c : Chapter) : Prop :=
  [deletion n c.job, .answered c.job.name true] <+: c.calls ∧
    ¬ attempt n c.job true <:+: c.calls

end Chapter

theorem refusals_succ (n : String) (j : Job) (k : Nat) :
    refusals n j (k + 1) = refusals n j k ++ attempt n j false := by
  rw [refusals, List.replicate_succ', List.flatten_concat, ← List.append_assoc, ← refusals]

/-- **A job stays deleted** only if three attempts to create its copy were refused, or if the rerun
panicked. -/
theorem exhausted_of_leavesDeleted {n : String} {c : Chapter} (h : c.Lawful n)
    (hdeleted : c.LeavesDeleted n) : c.panicked = true ∨ c.calls = refusals n c.job 3 := by
  cases hpanicked : c.panicked with
  | true => exact .inl rfl
  | false =>
      right
      rw [Chapter.Lawful, hpanicked, if_neg Bool.false_ne_true] at h
      obtain ⟨hgone, hnever⟩ := hdeleted
      generalize c.calls = calls at h hgone hnever
      cases h with
      | spared => simp at hgone
      | created hk => exact absurd (List.suffix_append _ _).isInfix hnever
      | lost => rfl

namespace Stage

/-- A stage that a rerun comes to. -/
def Valid : Stage → Prop
  | deleting => True
  | creating a => 1 ≤ a ∧ a ≤ 3
  | pausing a => 1 ≤ a ∧ a < 3

/-- Whether something is asked for at the stage. -/
def asks : Stage → Bool
  | deleting | creating _ => true
  | pausing _ => false

/-- Whether a wait is one of the stage. -/
def Awaits (stage : Stage) : Wait → Prop
  | .ready => False
  | .reply .. => stage.asks = true
  | .pause _ => stage.asks = false

variable (n : String) (j : Job)

/-- What a rerun has done when it comes to the stage. -/
def past : Stage → List Mark
  | deleting => []
  | creating a => refusals n j (a - 1)
  | pausing a => refusals n j a

/-- What is asked for at the stage. -/
def call : Stage → List Mark
  | deleting => [deletion n j]
  | creating _ => [creation n j]
  | pausing _ => []

/-- What is answered at the stage. -/
def answer (accepted : Bool) (stage : Stage) : List Mark :=
  if stage.asks then [.answered j.name accepted] else []

/-- What was done at a stage is the past of the next stage, or the end of the script. -/
theorem next_cases {stage : Stage} (h : stage.Valid) (accepted : Bool) :
    (∃ stage', stage.next accepted = .goesOn stage' ∧ stage'.Valid ∧
      stage'.past n j = stage.past n j ++ stage.call n j ++ stage.answer j accepted) ∨
    ((stage.next accepted = .succeeded ∨ stage.next accepted = .failed) ∧
      Script n j (stage.past n j ++ stage.call n j ++ stage.answer j accepted)) := by
  cases stage with
  | deleting =>
      cases accepted with
      | true => exact .inl ⟨.creating 1, rfl, by simp [Valid], rfl⟩
      | false => exact .inr ⟨.inr rfl, .spared⟩
  | creating a =>
      obtain ⟨hfirst, hlast⟩ := h
      have hbefore : a - 1 < 3 := by omega
      rw [List.append_assoc]
      change _ ∨ _ ∧ Script n j (refusals n j (a - 1) ++ attempt n j accepted)
      cases accepted with
      | true => exact .inr ⟨.inl rfl, .created hbefore⟩
      | false =>
          have hmore : refusals n j (a - 1) ++ attempt n j false = refusals n j a := by
            rw [← refusals_succ, Nat.sub_add_cancel hfirst]
          by_cases ha : a < attempts
          · left
            refine ⟨.pausing a, by simp [next, ha], ⟨hfirst, ha⟩, ?_⟩
            exact hmore.symm
          · right
            -- No attempt follows the third one.
            have hthird : a = 3 := by
              rw [attempts] at ha
              omega
            refine ⟨.inr (by simp [next, ha]), ?_⟩
            rw [hmore, hthird]
            exact .lost
  | pausing a =>
      obtain ⟨hfirst, hlast⟩ := h
      left
      refine ⟨.creating (a + 1), rfl, ⟨by omega, by omega⟩, ?_⟩
      simp [past, call, answer, asks]

/-- What was done at a stage from which a rerun goes on is the past of the next one. -/
theorem past_of_goesOn {stage stage' : Stage} (h : stage.Valid) {accepted : Bool}
    (hnext : stage.next accepted = .goesOn stage') :
    stage'.Valid ∧
      stage'.past n j = stage.past n j ++ stage.call n j ++ stage.answer j accepted := by
  rcases next_cases n j h accepted with ⟨stage', hnext', hpast⟩ | ⟨hend, -⟩
  · cases hnext.symm.trans hnext'
    exact hpast
  · simp [hnext] at hend

/-- What was done up to a stage at which a rerun ends is a whole script. -/
theorem script_of_end {stage : Stage} (h : stage.Valid) {accepted : Bool}
    (hnext : stage.next accepted = .succeeded ∨ stage.next accepted = .failed) :
    Script n j (stage.past n j ++ stage.call n j ++ stage.answer j accepted) := by
  rcases next_cases n j h accepted with ⟨stage', hnext', -⟩ | ⟨-, hscript⟩
  · simp [hnext'] at hnext
  · exact hscript

variable {n j}

/-- What is asked for at a stage is a mark of the rerun of the job. -/
theorem isOf_call {stage : Stage} :
    ∀ m ∈ stage.call n j, ∀ other, m.isOf other = decide (j.name = other) := by
  intro m hm other
  cases stage with
  | pausing a => cases hm
  | deleting | creating _ =>
      rw [List.mem_singleton.1 hm]
      rfl

/-- To ask for something ends no rerun. -/
theorem leavesAlive_call (stage : Stage) (name : String) (before : Bool) :
    (stage.call n j).foldl (Mark.leavesAlive name) before = before := by
  cases stage <;> rfl

/-- With what it has asked for, a rerun has played the beginning of a script. -/
theorem begun_call {stage : Stage} (h : stage.Valid) :
    Begun n j (stage.past n j ++ stage.call n j) := by
  cases stage with
  | deleting => exact ⟨_, .spared, by simp [past, call]⟩
  | creating a =>
      have hbefore : a - 1 < 3 := by
        obtain ⟨hfirst, hlast⟩ := h
        omega
      exact ⟨_, .created hbefore, by simp [past, call, attempt]⟩
  | pausing a => exact ⟨_, .created h.2, by simp [past, call]⟩

/-- What was done before a stage is the beginning of a script too. -/
theorem begun_past {stage : Stage} (h : stage.Valid) : Begun n j (stage.past n j) := by
  obtain ⟨script, hscript, hprefix⟩ := begun_call (n := n) (j := j) h
  exact ⟨script, hscript, (List.prefix_append _ _).trans hprefix⟩

end Stage

end ImageRollout.Rerun
