import Mathlib.Algebra.GroupWithZero.Nat
import Mathlib.Data.Prod.Lex
import Mathlib.Logic.Relation
import ImageRollout.Proofs.Fleet.Recipients

/-!
# Changes and pushes side by side

Notifications and pushes are carried out by tasks that run side by side, each in small steps.  A
task first has to get the fleet to itself.  One that follows a notification then does what is
demanded and leaves.  One that gives out a push goes through the managed namespaces in any order and
hands the push to one member after the other; a member can take its time, and it can fail.

Nothing but the wait at the door keeps tasks apart: every other step looks at the fleet as it is.

* `guarded_step`: only the task that holds the fleet is inside.
* `fleet_eq_of_giving`: nothing changes the fleet while a push is being given out.
* `work_of_not_finished`, `work_wellFounded`: the tasks never block each other, and they come to an
  end.
-/

namespace ImageRollout.Controllers

open Namespaces

variable {C : Type}

/-- What a task is to do. -/
inductive Errand where
  | sync (note : Notification)
  | push (push : Image.Push)

/-- How far a task has come that follows a notification. -/
inductive SyncStage where
  | waiting
  /-- The task has the fleet to itself and has not changed it. -/
  | entered
  /-- The task has changed the fleet and still has it to itself. -/
  | changed
  | finished

/-- How far a task has come that gives out a push. -/
inductive PushStage (C : Type) where
  | waiting
  /-- The task has the fleet to itself.  It has come to the last of the `visited` namespaces, where
  one member may be at work and the `rest` are still to get the push. -/
  | giving (visited : List String) (atWork : Option (String × Member C))
    (rest : List (String × Member C))
  | finished

/-- A task and how far it has come. -/
inductive Task (C : Type) where
  | sync (note : Notification) (stage : SyncStage)
  | push (push : Image.Push) (stage : PushStage C)

namespace Task

def errand : Task C → Errand
  | sync note _ => .sync note
  | push p _ => .push p

/-- Whether the task has the fleet to itself. -/
def isInside : Task C → Bool
  | sync _ .entered | sync _ .changed | push _ (.giving ..) => true
  | _ => false

def isGiving : Task C → Bool
  | push _ (.giving ..) => true
  | _ => false

/-- A push that is being given out holds the lock. -/
theorem isInside_of_isGiving {task : Task C} (h : task.isGiving = true) :
    task.isInside = true := by
  cases task with
  | sync => cases h
  | push p stage =>
      cases stage with
      | giving => rfl
      | waiting | finished => cases h

def isFinished : Task C → Bool
  | sync _ .finished | push _ .finished => true
  | _ => false

/-- The stages that a task has still to go through. -/
def stagesLeft : Task C → Nat
  | sync _ .waiting => 3
  | sync _ .entered => 2
  | sync _ .changed => 1
  | push _ .waiting => 2
  | push _ (.giving ..) => 1
  | sync _ .finished | push _ .finished => 0

/-- The managed namespaces that a task has still to visit. -/
def visitsLeft (names : List String) : Task C → Nat
  | push _ (.giving visited _ _) => (names.filter (· ∉ visited)).length
  | _ => 0

/-- The steps that a task has still to go in the namespace that it visits. -/
def movesLeft : Task C → Nat
  | push _ (.giving _ atWork rest) => 2 * rest.length + atWork.toList.length
  | _ => 0

end Task

/-- Something that befalls a member while tasks run. -/
inductive Mark (C : Type) where
  /-- A task gives its push to the member. -/
  | given (task : Nat) (member : String × Member C)
  /-- The member is through with the push of a task, or has failed. -/
  | done (task : Nat) (member : String × Member C) (failure : Option String)

/-- A fleet with the tasks on it and what has befallen its members. -/
structure Scene (C : Type) where
  fleet : Fleet C := {}
  /-- The task that has the fleet to itself. -/
  holder : Option Nat := none
  tasks : List (Task C) := []
  record : List (Mark C) := []

namespace Scene

/-- Which task gave its push to whom, in the order of time. -/
def deliveries (s : Scene C) : List (Nat × (String × Member C)) :=
  s.record.filterMap fun
    | .given i r => some (i, r)
    | .done .. => none

/-- Who got the push of a task, in the order of time. -/
def received (i : Nat) (s : Scene C) : List (String × Member C) :=
  (s.deliveries.filter (·.1 = i)).map (·.2)

variable (conduct : Conduct C) (registry : Registry (String → Except String C))

/-- One step of the `i`-th task. -/
inductive Work (i : Nat) : Scene C → Scene C → Prop
  | enterSync {s : Scene C} {note : Notification} (hfree : s.holder = none)
      (htask : s.tasks[i]? = some (.sync note .waiting)) :
      Work i s { s with holder := some i, tasks := s.tasks.set i (.sync note .entered) }
  | change {s : Scene C} {note : Notification}
      (htask : s.tasks[i]? = some (.sync note .entered)) :
      Work i s
        { s with
          fleet := (s.fleet.sync conduct registry note).1
          tasks := s.tasks.set i (.sync note .changed) }
  | leaveSync {s : Scene C} {note : Notification}
      (htask : s.tasks[i]? = some (.sync note .changed)) :
      Work i s { s with holder := none, tasks := s.tasks.set i (.sync note .finished) }
  | enterPush {s : Scene C} {p : Image.Push} (hfree : s.holder = none)
      (htask : s.tasks[i]? = some (.push p .waiting)) :
      Work i s { s with holder := some i, tasks := s.tasks.set i (.push p (.giving [] none [])) }
  | visit {s : Scene C} {p : Image.Push} {visited : List String} {n : String} {t : Team C}
      (htask : s.tasks[i]? = some (.push p (.giving visited none []))) (hn : n ∉ visited)
      (hteam : List.lookup n s.fleet.managed = some t) :
      Work i s
        { s with
          tasks := s.tasks.set i
            (.push p (.giving (visited ++ [n]) none (t.members.map (n, ·)))) }
  | give {s : Scene C} {p : Image.Push} {visited : List String} {r : String × Member C}
      {rest : List (String × Member C)}
      (htask : s.tasks[i]? = some (.push p (.giving visited none (r :: rest)))) :
      Work i s
        { s with
          tasks := s.tasks.set i (.push p (.giving visited (some r) rest))
          record := s.record ++ [.given i r] }
  | done {s : Scene C} {p : Image.Push} {visited : List String} {r : String × Member C}
      {rest : List (String × Member C)} (failure : Option String)
      (htask : s.tasks[i]? = some (.push p (.giving visited (some r) rest))) :
      Work i s
        { s with
          tasks := s.tasks.set i (.push p (.giving visited none rest))
          record := s.record ++ [.done i r failure] }
  | leavePush {s : Scene C} {p : Image.Push} {visited : List String}
      (htask : s.tasks[i]? = some (.push p (.giving visited none [])))
      (hall : ∀ n ∈ s.fleet.managed.names, n ∈ visited) :
      Work i s { s with holder := none, tasks := s.tasks.set i (.push p .finished) }

/-- A task with an errand that has not begun. -/
def newTask : Errand → Task C
  | .sync note => .sync note .waiting
  | .push p => .push p .waiting

/-- One step: a new task is called for, or one of the tasks goes on. -/
inductive Step : Scene C → Scene C → Prop
  | call {s : Scene C} (errand : Errand) : Step s { s with tasks := s.tasks ++ [newTask errand] }
  | work {s s' : Scene C} {i : Nat} (h : Work conduct registry i s s') : Step s s'

/-- What comes of a scene by any number of steps. -/
abbrev Leads : Scene C → Scene C → Prop := Relation.ReflTransGen (Step conduct registry)

/-- A task is inside exactly if it holds the fleet. -/
structure Guarded (s : Scene C) : Prop where
  inside_iff : ∀ i task, s.tasks[i]? = some task → (task.isInside = true ↔ s.holder = some i)
  held : ∀ i, s.holder = some i → i < s.tasks.length

variable {conduct registry} {s s' : Scene C} {i : Nat}

/-- After a task has gone on, the others are where they were. -/
theorem getElem?_set_task {tasks : List (Task C)} {old : Task C} (h : tasks[i]? = some old)
    (new : Task C) (j : Nat) : (tasks.set i new)[j]? = if i = j then some new else tasks[j]? := by
  obtain ⟨hlt, -⟩ := List.getElem?_eq_some_iff.1 h
  rw [List.getElem?_set]
  simp [hlt]

/-- A task that is found after one of them has gone on is that one, or where it was. -/
theorem lookup_cases {old new task : Task C} (hold : s.tasks[i]? = some old)
    (htasks : s'.tasks = s.tasks.set i new) {j : Nat} (h : s'.tasks[j]? = some task) :
    (i = j ∧ new = task) ∨ (i ≠ j ∧ s.tasks[j]? = some task) := by
  rw [htasks, getElem?_set_task hold] at h
  split at h
  next hi => exact .inl ⟨hi, Option.some.inj h⟩
  next hi => exact .inr ⟨hi, h⟩

/-- A task goes on with its errand and enters, stays inside or leaves. -/
theorem work_cases (h : Work conduct registry i s s') :
    ∃ old new, s.tasks[i]? = some old ∧ s'.tasks = s.tasks.set i new ∧
      new.errand = old.errand ∧
      ((s.holder = none ∧ new.isInside = true ∧ s'.holder = some i) ∨
        (old.isInside = true ∧ new.isInside = true ∧ s'.holder = s.holder) ∨
        (old.isInside = true ∧ new.isInside = false ∧ s'.holder = none)) := by
  cases h with
  | enterSync hfree htask => exact ⟨_, _, htask, rfl, rfl, .inl ⟨hfree, rfl, rfl⟩⟩
  | enterPush hfree htask => exact ⟨_, _, htask, rfl, rfl, .inl ⟨hfree, rfl, rfl⟩⟩
  | change htask => exact ⟨_, _, htask, rfl, rfl, .inr (.inl ⟨rfl, rfl, rfl⟩)⟩
  | visit htask => exact ⟨_, _, htask, rfl, rfl, .inr (.inl ⟨rfl, rfl, rfl⟩)⟩
  | give htask => exact ⟨_, _, htask, rfl, rfl, .inr (.inl ⟨rfl, rfl, rfl⟩)⟩
  | done failure htask => exact ⟨_, _, htask, rfl, rfl, .inr (.inl ⟨rfl, rfl, rfl⟩)⟩
  | leaveSync htask => exact ⟨_, _, htask, rfl, rfl, .inr (.inr ⟨rfl, rfl, rfl⟩)⟩
  | leavePush htask => exact ⟨_, _, htask, rfl, rfl, .inr (.inr ⟨rfl, rfl, rfl⟩)⟩

/-- Where nothing was done the lock guards nothing yet. -/
theorem guarded_new : ({} : Scene C).Guarded where
  inside_iff := by simp
  held := by simp

/-- The door keeps a second task out whatever step is taken. -/
theorem guarded_work (hs : s.Guarded) (h : Work conduct registry i s s') : s'.Guarded := by
  obtain ⟨old, new, hold, htasks, -, hdoor⟩ := work_cases h
  have hinside := hs.inside_iff i old hold
  have hlt : i < s.tasks.length := (List.getElem?_eq_some_iff.1 hold).1
  refine ⟨fun j task htask => ?_, fun j hj => ?_⟩
  · rcases lookup_cases hold htasks htask with ⟨rfl, rfl⟩ | ⟨hij, hbefore⟩
    · rcases hdoor with ⟨-, hnew, hh⟩ | ⟨hin, hnew, hh⟩ | ⟨-, hnew, hh⟩
      · simp [hnew, hh]
      · simp [hnew, hh, hinside.1 hin]
      · simp [hnew, hh]
    · -- Another task was outside already if this one enters or leaves.
      rw [hs.inside_iff j task hbefore]
      rcases hdoor with ⟨hfree, -, hh⟩ | ⟨-, -, hh⟩ | ⟨hin, -, hh⟩
      · simp [hfree, hh, hij]
      · rw [hh]
      · simp [hh, hinside.1 hin, hij]
  · rw [htasks, List.length_set]
    rcases hdoor with ⟨-, -, hh⟩ | ⟨-, -, hh⟩ | ⟨-, -, hh⟩
    · rw [hh] at hj
      cases hj
      exact hlt
    · exact hs.held j (hh ▸ hj)
    · rw [hh] at hj
      cases hj

/-- The lock keeps what it guards in every step. -/
theorem guarded_step (hs : s.Guarded) (h : Step conduct registry s s') : s'.Guarded := by
  cases h with
  | work hwork => exact guarded_work hs hwork
  | call errand =>
      refine ⟨fun j task htask => ?_, fun j hj => ?_⟩
      · change (s.tasks ++ [newTask errand])[j]? = some task at htask
        rcases Nat.lt_or_ge j s.tasks.length with hlt | hge
        · rw [List.getElem?_append_left hlt] at htask
          exact hs.inside_iff j task htask
        · rw [List.getElem?_append_right hge, List.getElem?_singleton] at htask
          split at htask
          next =>
            cases htask
            have houtside : (newTask errand : Task C).isInside = false := by cases errand <;> rfl
            rw [houtside]
            refine ⟨fun hin => absurd hin Bool.false_ne_true, fun hheld => ?_⟩
            have := hs.held j hheld
            omega
          next => cases htask
      · have hlt := hs.held j hj
        change j < (s.tasks ++ [newTask errand]).length
        rw [List.length_append]
        omega

/-- However long tasks go on, a task is inside exactly if it holds the fleet. -/
theorem guarded_leads (hs : s.Guarded) (h : Leads conduct registry s s') : s'.Guarded := by
  induction h with
  | refl => exact hs
  | tail _ hstep ih => exact guarded_step ih hstep

/-- **Nothing changes the fleet while a push is being given out.** -/
theorem fleet_eq_of_giving (hs : s.Guarded) (h : Step conduct registry s s') {task : Task C}
    (htask : s.tasks[i]? = some task) (hgiving : task.isGiving = true) : s'.fleet = s.fleet := by
  have hholder := (hs.inside_iff i task htask).1 (Task.isInside_of_isGiving hgiving)
  cases h with
  | call errand => rfl
  | work hwork =>
      cases hwork with
      | change hother =>
          -- A change that has entered holds the fleet, and so does the push: they are one task.
          have hentered := (hs.inside_iff _ _ hother).1 rfl
          rw [hholder] at hentered
          cases hentered
          rw [htask] at hother
          cases hother
          cases hgiving
      | enterSync | leaveSync | enterPush | visit | give | done | leavePush => rfl

/-- A task that is inside can always go on. -/
theorem work_of_inside {task : Task C} (htask : s.tasks[i]? = some task)
    (hinside : task.isInside = true) : ∃ s', Work conduct registry i s s' := by
  cases task with
  | sync note stage =>
      cases stage with
      | waiting | finished => cases hinside
      | entered => exact ⟨_, .change htask⟩
      | changed => exact ⟨_, .leaveSync htask⟩
  | push p stage =>
      cases stage with
      | waiting | finished => cases hinside
      | giving visited atWork rest =>
          cases atWork with
          | some r => exact ⟨_, .done none htask⟩
          | none =>
              cases rest with
              | cons r rest => exact ⟨_, .give htask⟩
              | nil =>
                  -- Between two namespaces a push leaves if there is no further one.
                  by_cases hall : ∀ n ∈ s.fleet.managed.names, n ∈ visited
                  · exact ⟨_, .leavePush htask hall⟩
                  · simp only [not_forall] at hall
                    obtain ⟨n, hn, hnew⟩ := hall
                    rw [← Table.has_eq_true_iff] at hn
                    obtain ⟨t, hteam⟩ := Option.isSome_iff_exists.1 hn
                    exact ⟨_, .visit htask hnew hteam⟩

/-- **The tasks never block each other.**  While one of them is not over, one of them can go on. -/
theorem work_of_not_finished (hs : s.Guarded) {task : Task C} (htask : s.tasks[i]? = some task)
    (hfinished : task.isFinished = false) : ∃ j s', Work conduct registry j s s' := by
  cases hholder : s.holder with
  | some j =>
      obtain ⟨other, hother⟩ : ∃ other, s.tasks[j]? = some other :=
        ⟨_, List.getElem?_eq_getElem (hs.held j hholder)⟩
      exact ⟨j, work_of_inside hother ((hs.inside_iff j other hother).2 hholder)⟩
  | none =>
      have houtside : task.isInside ≠ true := by
        rw [Ne, hs.inside_iff i task htask, hholder]
        simp
      refine ⟨i, ?_⟩
      cases task with
      | sync note stage =>
          cases stage with
          | waiting => exact ⟨_, .enterSync hholder htask⟩
          | entered | changed => exact absurd rfl houtside
          | finished => cases hfinished
      | push p stage =>
          cases stage with
          | waiting => exact ⟨_, .enterPush hholder htask⟩
          | giving => exact absurd rfl houtside
          | finished => cases hfinished

/-- A sum over tasks changes with the task that goes on. -/
theorem sum_map_set {tasks : List (Task C)} {old : Task C} (h : tasks[i]? = some old)
    (new : Task C) (g : Task C → Nat) :
    ((tasks.set i new).map g).sum + g old = (tasks.map g).sum + g new := by
  induction tasks generalizing i with
  | nil => cases h
  | cons task rest ih =>
      cases i with
      | zero =>
          cases h
          simp only [List.set_cons_zero, List.map_cons, List.sum_cons]
          omega
      | succ i =>
          have := ih (by simpa using h)
          simp only [List.set_cons_succ, List.map_cons, List.sum_cons]
          omega

/-- All that is left to do: stages, visits and steps within a namespace. -/
def effort (s : Scene C) : Nat × Nat × Nat :=
  ((s.tasks.map Task.stagesLeft).sum,
    (s.tasks.map (Task.visitsLeft s.fleet.managed.names)).sum,
    (s.tasks.map Task.movesLeft).sum)

/-- Visiting a new name leaves fewer to visit. -/
theorem visitsLeft_lt {names visited : List String} {n : String} (hn : n ∈ names)
    (hnew : n ∉ visited) :
    (names.filter (· ∉ visited ++ [n])).length < (names.filter (· ∉ visited)).length := by
  have hfilter : names.filter (· ∉ visited ++ [n]) =
      (names.filter (· ∉ visited)).filter (· ≠ n) := by
    rw [List.filter_filter]
    refine List.filter_congr fun k _ => ?_
    simp [and_comm]
  rw [hfilter, List.length_filter_lt_length_iff_exists]
  exact ⟨n, by simp [hn, hnew], by simp⟩

/-- The task that goes on decides whether there is less to do. -/
theorem effort_lt {old new : Task C} (hold : s.tasks[i]? = some old)
    (htasks : s'.tasks = s.tasks.set i new)
    (h : new.stagesLeft < old.stagesLeft ∨
      s'.fleet = s.fleet ∧ new.stagesLeft = old.stagesLeft ∧
        (new.visitsLeft s.fleet.managed.names < old.visitsLeft s.fleet.managed.names ∨
          new.visitsLeft s.fleet.managed.names = old.visitsLeft s.fleet.managed.names ∧
            new.movesLeft < old.movesLeft)) :
    Prod.Lex (· < ·) (Prod.Lex (· < ·) (· < ·)) s'.effort s.effort := by
  have hstages := sum_map_set hold new Task.stagesLeft
  have hvisits := sum_map_set hold new (Task.visitsLeft s.fleet.managed.names)
  have hmoves := sum_map_set hold new Task.movesLeft
  rw [Prod.lex_def, Prod.lex_def]
  simp only [effort, htasks]
  rcases h with hless | ⟨hfleet, heq, hless⟩
  · left
    omega
  · rw [hfleet]
    omega

/-- **The tasks come to an end.**  Without new calls there is no endless sequence of steps. -/
theorem work_wellFounded :
    WellFounded fun s' s : Scene C => ∃ i, Work conduct registry i s s' := by
  refine Subrelation.wf ?_ (InvImage.wf effort
    (Prod.lex Nat.lt_wfRel (Prod.lex Nat.lt_wfRel Nat.lt_wfRel)).wf)
  rintro s' s ⟨i, hwork⟩
  change Prod.Lex (· < ·) (Prod.Lex (· < ·) (· < ·)) s'.effort s.effort
  cases hwork with
  | enterSync _ htask => exact effort_lt htask rfl (.inl (by simp [Task.stagesLeft]))
  | change htask => exact effort_lt htask rfl (.inl (by simp [Task.stagesLeft]))
  | leaveSync htask => exact effort_lt htask rfl (.inl (by simp [Task.stagesLeft]))
  | enterPush _ htask => exact effort_lt htask rfl (.inl (by simp [Task.stagesLeft]))
  | leavePush htask _ => exact effort_lt htask rfl (.inl (by simp [Task.stagesLeft]))
  -- The steps of a push within its stage leave the fleet alone, so that no names come anew.
  | visit htask hn hteam =>
      have hname := Table.has_eq_true_iff.1 (Option.isSome_iff_exists.2 ⟨_, hteam⟩)
      exact effort_lt htask rfl (.inr ⟨rfl, rfl, .inl (visitsLeft_lt hname hn)⟩)
  | give htask =>
      refine effort_lt htask rfl (.inr ⟨rfl, rfl, .inr ⟨rfl, ?_⟩⟩)
      simp only [Task.movesLeft, List.length_cons, Option.toList, List.length_nil]
      omega
  | done failure htask =>
      refine effort_lt htask rfl (.inr ⟨rfl, rfl, .inr ⟨rfl, ?_⟩⟩)
      simp [Task.movesLeft]

end Scene

end ImageRollout.Controllers
