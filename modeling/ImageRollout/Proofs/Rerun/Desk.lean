import ImageRollout.Proofs.Rerun.Story

/-!
# The desk of a controller of jobs

At its desk a controller of jobs has what it knows of the jobs, the jobs of which a push is still to
be considered, and the reruns under way.  All of this goes on at once, in any order; what the API
server answers, and when, is up to it, and a rerun may panic between any two of its moves.

Everything that concerns one name makes up a thread.

* `moveRerun_cases`, `move_cases`: what one move of a rerun can be, and what is seen of it.
* `thread_step`: every step of the desk is a step of each thread, or leaves the thread alone.
-/

namespace ImageRollout.Rerun

open Cluster Kubernetes Watch

namespace Claims

/-- Every claim is held under the name that it is on. -/
def Own (c : Claims) : Prop := ∀ e ∈ c.held, e.2 = e.1

/-- A name is claimed if somebody of that name holds a claim. -/
theorem isClaimed_eq_has {c : Claims} (h : c.Own) (name : String) :
    c.isClaimed name = c.held.has name := by
  have hnames : c.names = c.held.names := List.map_congr_left h
  rw [Bool.eq_iff_iff, Table.has_eq_true_iff, isClaimed, hnames, decide_eq_true_iff]

/-- To let go of a claim changes nothing about whom the others are held by. -/
theorem own_release {c : Claims} (h : c.Own) (name : String) : (c.release name).Own :=
  fun e he => h e (List.mem_filter.1 he).1

/-- Who lets go of a claim frees its name and no other. -/
theorem isClaimed_release {c : Claims} (h : c.Own) (name other : String) :
    (c.release name).isClaimed other = if other = name then false else c.isClaimed other := by
  rw [isClaimed_eq_has (own_release h name), isClaimed_eq_has h]
  exact Table.has_erase name other c.held

/-- A name is claimed for itself exactly if it is free. -/
theorem claim_cases {c : Claims} (h : c.Own) (name : String) :
    (c.isClaimed name = true ∧ c.claim? name name = none) ∨
      (c.isClaimed name = false ∧ ∃ c', c.claim? name name = some c' ∧ c'.Own ∧
        ∀ other, c'.isClaimed other = if other = name then true else c.isClaimed other) := by
  by_cases hname : name ∈ c.names
  · left
    exact ⟨decide_eq_true hname, dif_pos hname⟩
  · right
    refine ⟨decide_eq_false hname, _, dif_neg hname, ?_⟩
    have hown : ∀ e ∈ c.held.insert name name, e.2 = e.1 := by
      intro e he
      rcases List.mem_cons.1 he with rfl | hrest
      · rfl
      · exact h e (List.mem_filter.1 hrest).1
    refine ⟨hown, fun other => ?_⟩
    rw [isClaimed_eq_has h]
    exact (isClaimed_eq_has (by exact hown) other).trans (Table.has_insert name other name c.held)

end Claims

/-- A controller of jobs at work. -/
structure Desk where
  cache : Cache Object := {}
  /-- The jobs that were known when a push came in and that are still to be considered. -/
  pending : List (Image.Push × Job) := []
  reruns : Reruns := {}
  waits : Table Wait := []
  record : List Mark := []

namespace Desk

/-- The jobs as they are known. -/
def jobs (d : Desk) : List Job := d.cache.list.filterMap Object.job?

/-- Something is seen of the jobs. -/
def hear (e : Event Object) (d : Desk) : Desk :=
  { d with cache := d.cache.observe Object.name e, record := d.record ++ [.heard e] }

/-- A push comes in, and the jobs are listed. -/
def receive (push : Image.Push) (d : Desk) : Desk :=
  { d with
    pending := d.pending ++ d.jobs.map (push, ·)
    record := d.record ++ [.received push d.jobs] }

/-- What is recorded when a push is considered for a job. -/
def notes (push : Image.Push) (job : Job) (r : Reruns) : List Mark :=
  if needsRerun push job then
    [if r.claims.isClaimed job.name then .skipped push job else .began push job]
  else []

/-- A push is considered for one job. -/
def consider (push : Image.Push) (job : Job) (d : Desk) : Desk :=
  { d with
    reruns := d.reruns.receive push [job]
    record := d.record ++ notes push job d.reruns }

/-- The answer that somebody has waited for. -/
def answered (name : String) : Option Wait → List Mark
  | some (.reply _ reply) => [.answered name (reply = .accepted)]
  | some .ready | some (.pause _) | none => []

/-- What can be seen of a move of the rerun of a name. -/
def marks (name : String) (waits : Table Wait) (s s' : Site) (r' : Reruns) : List Mark :=
  answered name (List.lookup name waits) ++
    (s'.writes.drop s.writes.length).map (fun w => .asked w.request w.content) ++
    if r'.tasks.has name then [] else [.ended name false]

/-- The rerun of a name moves on the scene, if it can. -/
def move? (n name : String) (t : Task) (s : Site) (d : Desk) : Option Desk :=
  (Controller.moveRerun? n name t d.reruns d.waits s).map fun (s', reruns, waits) =>
    { d with reruns, waits, record := d.record ++ marks name d.waits s s' reruns }

/-- The rerun of a name panics. -/
def crash (name : String) (d : Desk) : Desk :=
  { d with
    reruns := d.reruns.finish name
    waits := d.waits.erase name
    record := d.record ++ [.ended name true] }

/-- What can happen at the desk, in a namespace.  A rerun finds whatever scene there is when it
moves. -/
inductive Step (n : String) (d : Desk) : Desk → Prop
  | hear (e : Event Object) : Step n d (d.hear e)
  | receive (push : Image.Push) : Step n d (d.receive push)
  | consider {before after : List (Image.Push × Job)} {push : Image.Push} {job : Job}
      (hpending : d.pending = before ++ (push, job) :: after) :
      Step n d { d.consider push job with pending := before ++ after }
  | move {name : String} {t : Task} {s : Site} {d' : Desk} (htask : (name, t) ∈ d.reruns.tasks)
      (hmove : d.move? n name t s = some d') : Step n d d'
  | crash {name : String} (htask : d.reruns.tasks.has name = true) : Step n d (d.crash name)

/-- All that a desk can come to. -/
inductive Run (n : String) : Desk → Prop
  | start : Run n {}
  | next {d d' : Desk} (h : Run n d) (hstep : Step n d d') : Run n d'

end Desk

/-- What concerns one name. -/
structure Thread where
  task : Option Task := none
  wait : Option Wait := none
  alive : Bool := false
  text : List Mark := []

/-- What concerns one name at a desk. -/
def Desk.thread (name : String) (d : Desk) : Thread :=
  { task := List.lookup name d.reruns.tasks
    wait := List.lookup name d.waits
    alive := Rerun.alive name d.record
    text := d.record.filter (·.isOf name) }

namespace Thread

/-- What can happen to a name. -/
inductive Step (n name : String) (v : Thread) : Thread → Prop
  | stay : Step n name v v
  | begin {push : Image.Push} {j : Job} (hname : j.name = name) (hfree : v.task = none) :
      Step n name v
        { v with task := some { job := j }, alive := true, text := v.text ++ [.began push j] }
  | ask {t : Task} {due : Moment} {reply : Reply} (htask : v.task = some t) (hwait : v.wait = none)
      (hasks : t.stage.asks = true) :
      Step n name v
        { v with wait := some (.reply due reply), text := v.text ++ t.stage.call n t.job }
  | rest {t : Task} {wake : Moment} (htask : v.task = some t) (hwait : v.wait = none)
      (hasks : t.stage.asks = false) : Step n name v { v with wait := some (.pause wake) }
  | goOn {t : Task} {wait : Wait} {accepted : Bool} {stage : Stage} (htask : v.task = some t)
      (hwait : v.wait = some wait) (hmeant : ∀ due reply, wait = .reply due reply →
        accepted = decide (reply = .accepted)) (hnext : t.stage.next accepted = .goesOn stage) :
      Step n name v
        { v with
          task := some { t with stage }, wait := none
          text := v.text ++ Desk.answered name (some wait) }
  | finish {t : Task} {wait : Wait} {accepted : Bool} (htask : v.task = some t)
      (hwait : v.wait = some wait) (hmeant : ∀ due reply, wait = .reply due reply →
        accepted = decide (reply = .accepted))
      (hnext : t.stage.next accepted = .succeeded ∨ t.stage.next accepted = .failed) :
      Step n name v { text := v.text ++ Desk.answered name (some wait) ++ [.ended name false] }
  | crash (htask : v.task.isSome = true) :
      Step n name v { text := v.text ++ [.ended name true] }

end Thread

/-- **What a move of a rerun can be.**  Where nothing is waited for, it asks for what its stage
asks for, or begins its pause.  Where a wait is over, its stage decides whether it goes on. -/
theorem moveRerun_cases {n name : String} {t : Task} {r r' : Reruns} {waits waits' : Table Wait}
    {s s' : Site} (h : Controller.moveRerun? n name t r waits s = some (s', r', waits'))
    (hname : t.job.name = name) :
    (List.lookup name waits = none ∧ r' = r ∧
      ((t.stage.asks = true ∧ ∃ w, s'.writes = s.writes ++ [w] ∧
          t.stage.call n t.job = [.asked w.request w.content] ∧ waits' = waits.insert name
            (.reply s.now.afterExchange (s.server.answer w.request).2)) ∨
        (t.stage.asks = false ∧ s'.writes = s.writes ∧
          waits' = waits.insert name (.pause (s.now.afterWait pause))))) ∨
      (∃ wait reply, List.lookup name waits = some wait ∧ s.over? wait = some reply ∧
        waits' = waits.erase name ∧ s'.writes = s.writes ∧
        ((∃ stage, t.stage.next (reply = .accepted) = .goesOn stage ∧
          r' = r.moveTo name stage) ∨
          ((t.stage.next (reply = .accepted) = .succeeded ∨
            t.stage.next (reply = .accepted) = .failed) ∧ r' = r.finish name))) := by
  subst hname
  rw [Controller.moveRerun?] at h
  cases hwait : List.lookup t.job.name waits with
  | none =>
      left
      rw [hwait] at h
      cases hstage : t.stage with
      | deleting | creating _ =>
          rw [hstage] at h
          cases h
          exact ⟨rfl, rfl, .inl ⟨rfl, _, rfl, rfl, rfl⟩⟩
      | pausing a =>
          rw [hstage] at h
          cases h
          exact ⟨rfl, rfl, .inr ⟨rfl, rfl, rfl⟩⟩
  | some wait =>
      right
      rw [hwait] at h
      cases hover : s.over? wait with
      | none => simp [hover] at h
      | some reply =>
          simp only [hover] at h
          refine ⟨wait, reply, rfl, hover, ?_⟩
          cases hnext : t.stage.next (reply = .accepted) with
          | goesOn stage =>
              rw [hnext] at h
              cases h
              exact ⟨rfl, rfl, .inl ⟨stage, rfl, rfl⟩⟩
          | succeeded | failed =>
              rw [hnext] at h
              cases h
              exact ⟨rfl, rfl, .inr ⟨by simp, rfl⟩⟩

/-- The reply that has come is the one that was waited for. -/
theorem eq_of_over {s : Site} {wait : Wait} {reply : Reply} (h : s.over? wait = some reply)
    {due : Moment} {expected : Reply} (hwait : wait = .reply due expected) : reply = expected := by
  subst hwait
  cases expected <;> simp only [Site.over?] at h <;> grind

namespace Reruns

variable (r : Reruns)

/-- A rerun that moves to another stage is the only one that does. -/
theorem lookup_moveTo (name other : String) (stage : Stage) :
    List.lookup other (r.moveTo name stage).tasks =
      if other = name then (List.lookup other r.tasks).map ({ · with stage })
      else List.lookup other r.tasks := by
  change List.lookup other (r.tasks.map fun e => (e.1, _)) = _
  induction r.tasks with
  | nil => simp
  | cons e rest ih =>
      rw [List.map_cons, Table.lookup_cons, ih, Table.lookup_cons]
      by_cases he : other = e.1 <;> by_cases hn : other = name <;> grind

/-- A rerun that moves to another stage is still there. -/
theorem names_moveTo (name : String) (stage : Stage) :
    (r.moveTo name stage).tasks.names = r.tasks.names := by
  rw [Table.names, moveTo, List.map_map]
  rfl

/-- A rerun that begins comes behind all others. -/
theorem lookup_concat (j : Job) (other : String) :
    List.lookup other (r.tasks ++ [(j.name, { job := j })]) =
      (List.lookup other r.tasks).or (if other = j.name then some { job := j } else none) := by
  rw [List.lookup_append, Table.lookup_cons]
  rfl

/-- Every name has one rerun at most, which is that of its job and holds the claim on it. -/
structure Kept : Prop where
  distinct : r.tasks.names.Nodup
  named : ∀ e ∈ r.tasks, e.2.job.name = e.1
  own : r.claims.Own
  claimed : ∀ name, r.claims.isClaimed name = r.tasks.has name

variable {r}

/-- What comes of a rerun that is to begin. -/
theorem begin_cases (h : r.claims.Own) (j : Job) :
    (r.claims.isClaimed j.name = true ∧ r.begin j = r) ∨
      (r.claims.isClaimed j.name = false ∧
        (r.begin j).tasks = r.tasks ++ [(j.name, { job := j })] ∧ (r.begin j).claims.Own ∧
        ∀ other, (r.begin j).claims.isClaimed other =
          if other = j.name then true else r.claims.isClaimed other) := by
  rcases Claims.claim_cases h j.name with ⟨hclaimed, hclaim⟩ |
    ⟨hfree, c', hclaim, hown, hnames⟩
  · left
    exact ⟨hclaimed, by rw [begin, hclaim]⟩
  · right
    rw [begin, hclaim]
    exact ⟨hfree, rfl, hown, hnames⟩

/-- A push reruns one job if it concerns the job. -/
theorem receive_singleton (push : Image.Push) (j : Job) :
    r.receive push [j] = if needsRerun push j then r.begin j else r := by
  by_cases h : needsRerun push j = true <;> simp [receive, h]

/-- A rerun begins only for a name that has none. -/
theorem kept_begin (h : r.Kept) (j : Job) : (r.begin j).Kept := by
  rcases begin_cases h.own j with ⟨-, hsame⟩ | ⟨hfree, htasks, hown, hclaimed⟩
  · rwa [hsame]
  · have hnew : j.name ∉ r.tasks.names := by
      rw [← Table.has_eq_true_iff, ← h.claimed, hfree]
      exact Bool.false_ne_true
    refine ⟨?_, fun e he => ?_, hown, fun name => ?_⟩
    · rw [htasks, Table.names, List.map_append, ← Table.names, List.nodup_append]
      refine ⟨h.distinct, List.pairwise_singleton _ _, fun other hother last hlast heq => ?_⟩
      rw [List.map_singleton, List.mem_singleton] at hlast
      rw [heq, hlast] at hother
      exact hnew hother
    · rw [htasks] at he
      rcases List.mem_append.1 he with hold | hlast
      · exact h.named e hold
      · rw [List.mem_singleton.1 hlast]
    · rw [hclaimed, h.claimed, htasks, Table.has, Table.has, lookup_concat]
      by_cases hname : name = j.name <;> simp [hname]

/-- A push that is considered for one job begins one rerun at most. -/
theorem kept_receive (h : r.Kept) (push : Image.Push) (j : Job) : (r.receive push [j]).Kept := by
  rw [receive_singleton]
  split
  · exact kept_begin h j
  · exact h

/-- A rerun that ends frees its name. -/
theorem kept_finish (h : r.Kept) (name : String) : (r.finish name).Kept where
  distinct := Table.nodup_filter h.distinct
  named := fun e he => h.named e (List.mem_filter.1 he).1
  own := Claims.own_release h.own name
  claimed := fun other => by
    change (r.claims.release name).isClaimed other = (Table.erase name r.tasks).has other
    rw [Claims.isClaimed_release h.own, Table.has_erase, h.claimed]

/-- A rerun that moves to another stage keeps its name. -/
theorem kept_moveTo (h : r.Kept) (name : String) (stage : Stage) : (r.moveTo name stage).Kept where
  distinct := by
    rw [names_moveTo]
    exact h.distinct
  named := by
    intro e he
    obtain ⟨old, hold, rfl⟩ := List.mem_map.1 he
    by_cases hname : old.1 = name <;> simpa [hname] using h.named old hold
  own := h.own
  claimed := by
    intro other
    change r.claims.isClaimed other = _
    rw [h.claimed, Bool.eq_iff_iff, Table.has_eq_true_iff, Table.has_eq_true_iff, names_moveTo]

end Reruns

namespace Desk

/-- A move of a rerun, as it is seen at the desk. -/
theorem move_cases {n name : String} {t : Task} {s : Site} {d d' : Desk} (h : d.reruns.Kept)
    (htask : (name, t) ∈ d.reruns.tasks) (hmove : d.move? n name t s = some d') :
    (List.lookup name d.waits = none ∧ d'.reruns = d.reruns ∧
      ((t.stage.asks = true ∧ d'.record = d.record ++ t.stage.call n t.job ∧
          ∃ request content, t.stage.call n t.job = [.asked request content] ∧
            d'.waits = d.waits.insert name
              (.reply s.now.afterExchange (s.server.answer request).2)) ∨
        (t.stage.asks = false ∧ d'.record = d.record ++ [] ∧
          d'.waits = d.waits.insert name (.pause (s.now.afterWait pause))))) ∨
      (∃ wait accepted, List.lookup name d.waits = some wait ∧ d'.waits = d.waits.erase name ∧
        (∀ due reply, wait = .reply due reply → accepted = decide (reply = .accepted)) ∧
        ((∃ stage, t.stage.next accepted = .goesOn stage ∧
            d'.reruns = d.reruns.moveTo name stage ∧
            d'.record = d.record ++ answered name (some wait)) ∨
          ((t.stage.next accepted = .succeeded ∨ t.stage.next accepted = .failed) ∧
            d'.reruns = d.reruns.finish name ∧
            d'.record = d.record ++ (answered name (some wait) ++ [.ended name false])))) := by
  obtain ⟨⟨s', r', waits'⟩, hrerun, rfl⟩ := Option.map_eq_some_iff.1 hmove
  have hhas : d.reruns.tasks.has name = true := by
    rw [Table.has, Table.lookup_of_mem h.distinct htask]
    rfl
  -- The rerun has ended exactly if it is not among the reruns any more.
  rcases moveRerun_cases hrerun (h.named _ htask) with
    ⟨hwait, rfl, ⟨hasks, w, hwrites, hcall, rfl⟩ | ⟨hasks, hwrites, rfl⟩⟩ |
    ⟨wait, reply, hwait, hover, rfl, hwrites, hgoes⟩
  · refine .inl ⟨hwait, rfl, .inl ⟨hasks, ?_, w.request, w.content, hcall, rfl⟩⟩
    simp [marks, answered, hwait, hwrites, hhas, hcall]
  · refine .inl ⟨hwait, rfl, .inr ⟨hasks, ?_, rfl⟩⟩
    simp [marks, answered, hwait, hwrites, hhas]
  · have hmeant (due : Moment) (expected : Reply) (heq : wait = .reply due expected) :
        decide (reply = .accepted) = decide (expected = .accepted) := by rw [eq_of_over hover heq]
    refine .inr ⟨wait, decide (reply = .accepted), hwait, rfl, hmeant, ?_⟩
    rcases hgoes with ⟨stage, hnext, rfl⟩ | ⟨hnext, rfl⟩
    · have hstill : (d.reruns.moveTo name stage).tasks.has name = true := by
        rwa [Table.has_eq_true_iff, Reruns.names_moveTo, ← Table.has_eq_true_iff]
      refine .inl ⟨stage, hnext, rfl, ?_⟩
      simp [marks, hwait, hwrites, hstill]
    · have hgone : (d.reruns.finish name).tasks.has name = false := by
        rw [Reruns.finish, Table.has_erase, if_pos rfl]
      refine .inr ⟨hnext, rfl, ?_⟩
      simp [marks, hwait, hwrites, hgone]

/-- **Every step keeps one rerun for each name at most**, with the claim on the name. -/
theorem kept_step {n : String} {d d' : Desk} (h : d.reruns.Kept) (hstep : Step n d d') :
    d'.reruns.Kept := by
  cases hstep with
  | hear e => exact h
  | receive push => exact h
  | consider hpending => exact Reruns.kept_receive h _ _
  | move htask hmove =>
      rcases move_cases h htask hmove with
        ⟨-, hreruns, -⟩ |
        ⟨wait, accepted, -, -, -, ⟨stage, -, hreruns, -⟩ | ⟨-, hreruns, -⟩⟩ <;>
        rw [hreruns]
      · exact h
      · exact Reruns.kept_moveTo h _ _
      · exact Reruns.kept_finish h _
  | crash htask => exact Reruns.kept_finish h _

/-- What comes of a push that is considered for a job: nothing, or a rerun if there is none. -/
theorem consider_cases {d : Desk} (h : d.reruns.Kept) (push : Image.Push) (job : Job) :
    (needsRerun push job = false ∧ d.consider push job = d) ∨
      (needsRerun push job = true ∧ d.reruns.tasks.has job.name = true ∧
        d.consider push job = { d with record := d.record ++ [.skipped push job] }) ∨
      (needsRerun push job = true ∧ d.reruns.tasks.has job.name = false ∧
        (d.consider push job).reruns.tasks = d.reruns.tasks ++ [(job.name, { job := job })] ∧
        (d.consider push job).record = d.record ++ [.began push job]) := by
  cases hneeds : needsRerun push job with
  | false =>
      left
      simp [consider, notes, Reruns.receive_singleton, hneeds]
  | true =>
      right
      rw [← h.claimed]
      rcases Reruns.begin_cases h.own job with ⟨hclaimed, hsame⟩ | ⟨hfree, htasks, -, -⟩
      · left
        simp [consider, notes, Reruns.receive_singleton, hneeds, hclaimed, hsame]
      · right
        simp [consider, notes, Reruns.receive_singleton, hneeds, hfree, htasks]

/-- An answer is a mark of the rerun that has waited for it. -/
theorem isOf_answered (name : String) (wait : Option Wait) :
    ∀ m ∈ answered name wait, ∀ other, m.isOf other = decide (name = other) := by
  intro m hm other
  cases wait with
  | none => cases hm
  | some wait =>
      cases wait with
      | reply due reply =>
          rw [List.mem_singleton.1 hm]
          rfl
      | ready => cases hm
      | pause wake => cases hm

/-- An answer by itself ends no rerun. -/
theorem leavesAlive_answered (name other : String) (wait : Option Wait) (before : Bool) :
    (answered name wait).foldl (Mark.leavesAlive other) before = before := by
  cases wait with
  | none => rfl
  | some wait => cases wait <;> rfl

/-- A mark that is left by no rerun of a name leaves its thread alone. -/
theorem thread_congr {name : String} {d d' : Desk} {marks : List Mark}
    (htask : List.lookup name d'.reruns.tasks = List.lookup name d.reruns.tasks)
    (hwait : List.lookup name d'.waits = List.lookup name d.waits)
    (hrecord : d'.record = d.record ++ marks) (hmarks : ∀ m ∈ marks, m.isOf name = false) :
    d'.thread name = d.thread name := by
  have hnone : marks.filter (·.isOf name) = [] :=
    List.filter_eq_nil_iff.2 fun m hm => by simp [hmarks m hm]
  rw [thread, thread, htask, hwait, hrecord, alive_of_others hmarks, List.filter_append, hnone,
    List.append_nil]

/-- A step of a rerun, which leaves marks of its own, is a step of its thread and of no other. -/
theorem thread_of_own {n : String} {d d' : Desk} {marks : List Mark} (name other : String)
    (htask : ∀ other, other ≠ name →
      List.lookup other d'.reruns.tasks = List.lookup other d.reruns.tasks)
    (hwait : ∀ other, other ≠ name → List.lookup other d'.waits = List.lookup other d.waits)
    (hrecord : d'.record = d.record ++ marks)
    (hmarks : ∀ m ∈ marks, ∀ other, m.isOf other = decide (name = other))
    (hstep : Thread.Step n name (d.thread name)
      { task := List.lookup name d'.reruns.tasks
        wait := List.lookup name d'.waits
        alive := marks.foldl (Mark.leavesAlive name) (alive name d.record)
        text := (d.thread name).text ++ marks }) :
    Thread.Step n other (d.thread other) (d'.thread other) := by
  by_cases hother : other = name
  · subst hother
    have hall : marks.filter (·.isOf other) = marks :=
      List.filter_eq_self.2 fun m hm => by simp [hmarks m hm]
    have htext : (d'.thread other).text = (d.thread other).text ++ marks := by
      rw [thread, hrecord, List.filter_append, hall]
      rfl
    rw [← alive_append, ← hrecord, ← htext] at hstep
    exact hstep
  · rw [thread_congr (htask other hother) (hwait other hother) hrecord fun m hm => ?_]
    · exact .stay
    · rw [hmarks m hm]
      exact decide_eq_false fun heq => hother heq.symm

/-- A push that is considered for a job begins a rerun of its thread, or nothing. -/
theorem thread_consider {n : String} {d : Desk} (h : d.reruns.Kept) (push : Image.Push) (job : Job)
    (name : String) : Thread.Step n name (d.thread name) ((d.consider push job).thread name) := by
  rcases consider_cases h push job with
    ⟨-, hsame⟩ | ⟨-, -, hskipped⟩ | ⟨-, hfree, htasks, hrecord⟩
  · rw [hsame]
    exact .stay
  · have hthread : (d.consider push job).thread name = d.thread name := by
      rw [hskipped]
      exact thread_congr rfl rfl rfl (by simp [Mark.isOf])
    rw [hthread]
    exact .stay
  · have hnone : List.lookup job.name d.reruns.tasks = none := by simpa [Table.has] using hfree
    refine thread_of_own job.name name (fun other hother => ?_) (fun _ _ => rfl) hrecord
      (by simp [Mark.isOf]) ?_
    · simp [htasks, Reruns.lookup_concat, hother]
    · have halive : [Mark.began push job].foldl (Mark.leavesAlive job.name)
          (alive job.name d.record) = true := by simp [Mark.leavesAlive]
      rw [htasks, Reruns.lookup_concat, hnone, if_pos rfl, halive]
      exact .begin rfl hnone

/-- A move of a rerun is a step of its thread. -/
theorem thread_move {n name : String} {t : Task} {s : Site} {d d' : Desk} (h : d.reruns.Kept)
    (htask : (name, t) ∈ d.reruns.tasks) (hmove : d.move? n name t s = some d') (other : String) :
    Thread.Step n other (d.thread other) (d'.thread other) := by
  have hname : t.job.name = name := h.named _ htask
  have hlookup : List.lookup name d.reruns.tasks = some t := Table.lookup_of_mem h.distinct htask
  rcases move_cases h htask hmove with
    ⟨hwait, hreruns,
      ⟨hasks, hrecord, request, content, -, hwaits⟩ | ⟨hasks, hrecord, hwaits⟩⟩ |
    ⟨wait, accepted, hwait, hwaits, hmeant,
      ⟨stage, hnext, hreruns, hrecord⟩ | ⟨hnext, hreruns, hrecord⟩⟩
  · refine thread_of_own name other (fun _ _ => by rw [hreruns]) (fun other hother => ?_) hrecord
      (hname ▸ Stage.isOf_call) ?_
    · rw [hwaits, Table.lookup_insert, if_neg hother]
    · rw [hreruns, hwaits, Table.lookup_insert, if_pos rfl, Stage.leavesAlive_call]
      exact .ask hlookup hwait hasks
  · refine thread_of_own name other (fun _ _ => by rw [hreruns]) (fun other hother => ?_) hrecord
      (by simp) ?_
    · rw [hwaits, Table.lookup_insert, if_neg hother]
    · rw [hreruns, hwaits, Table.lookup_insert, if_pos rfl, List.append_nil]
      exact .rest hlookup hwait hasks
  · refine thread_of_own name other (fun other hother => ?_) (fun other hother => ?_) hrecord
      (isOf_answered name _) ?_
    · rw [hreruns, Reruns.lookup_moveTo, if_neg hother]
    · rw [hwaits, Table.lookup_erase, if_neg hother]
    · rw [hreruns, hwaits, Table.lookup_erase, if_pos rfl, Reruns.lookup_moveTo, if_pos rfl,
        hlookup, leavesAlive_answered]
      exact .goOn hlookup hwait hmeant hnext
  · refine thread_of_own name other (fun other hother => ?_) (fun other hother => ?_) hrecord
      ?_ ?_
    · rw [hreruns, Reruns.finish, Table.lookup_erase, if_neg hother]
    · rw [hwaits, Table.lookup_erase, if_neg hother]
    · intro m hm
      rcases List.mem_append.1 hm with hanswer | hend
      · exact isOf_answered name _ m hanswer
      · rw [List.mem_singleton.1 hend]
        exact fun _ => rfl
    · have hdead : (answered name (some wait) ++ [Mark.ended name false]).foldl
          (Mark.leavesAlive name) (alive name d.record) = false := by
        rw [List.foldl_append, leavesAlive_answered]
        simp [Mark.leavesAlive]
      rw [hreruns, hwaits, Reruns.finish, Table.lookup_erase, Table.lookup_erase, if_pos rfl,
        if_pos rfl, hdead, ← List.append_assoc]
      exact .finish hlookup hwait hmeant hnext

/-- A rerun that panics is the end of what goes on in its thread. -/
theorem thread_crash {n name : String} {d : Desk} (htask : d.reruns.tasks.has name = true)
    (other : String) : Thread.Step n other (d.thread other) ((d.crash name).thread other) := by
  have hrecord : (d.crash name).record = d.record ++ [.ended name true] := rfl
  refine thread_of_own name other (fun other hother => ?_) (fun other hother => ?_) hrecord
    (fun m hm => ?_) ?_
  · rw [crash, Reruns.finish, Table.lookup_erase, if_neg hother]
  · rw [crash, Table.lookup_erase, if_neg hother]
  · rw [List.mem_singleton.1 hm]
    exact fun _ => rfl
  · have hdead : [Mark.ended name true].foldl (Mark.leavesAlive name) (alive name d.record) =
        false := by simp [Mark.leavesAlive]
    rw [hdead, crash, Reruns.finish, Table.lookup_erase, Table.lookup_erase, if_pos rfl, if_pos rfl]
    exact .crash htask

/-- **Every step of the desk is a step of each thread.** -/
theorem thread_step {n : String} {d d' : Desk} (h : d.reruns.Kept) (hstep : Step n d d')
    (name : String) : Thread.Step n name (d.thread name) (d'.thread name) := by
  cases hstep with
  | hear e =>
      have hthread : (d.hear e).thread name = d.thread name :=
        thread_congr rfl rfl rfl (by simp [Mark.isOf])
      rw [hthread]
      exact .stay
  | receive push =>
      have hthread : (d.receive push).thread name = d.thread name :=
        thread_congr rfl rfl rfl (by simp [Mark.isOf])
      rw [hthread]
      exact .stay
  | consider hpending => exact thread_consider h _ _ name
  | move htask hmove => exact thread_move h htask hmove name
  | crash htask => exact thread_crash htask name

end Desk

end ImageRollout.Rerun
