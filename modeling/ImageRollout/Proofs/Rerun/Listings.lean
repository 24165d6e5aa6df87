import Mathlib.Data.List.Perm.Basic
import ImageRollout.Proofs.Rerun.Desk

/-!
# Every listed job is seen to

When a push comes in, the jobs are listed as they are known from what was seen of them.  Each listed
job that the push concerns is seen to once: a rerun of it begins, or the push passes over it.  Until
then it is pending.

* `onWay_marks`, `frame_onWay`: what a rerun leaves on its way is no matter of listings.
* `known_step`, `accounted_step`: what is known, and what has become of the listed jobs, after every
  step.
-/

namespace ImageRollout.Rerun

open Cluster Kubernetes Watch

namespace Mark

/-- What is known of the jobs behind the mark. -/
def tell (c : Cache Object) : Mark → Cache Object
  | heard e => c.observe Object.name e
  | received .. | began .. | skipped .. | asked .. | answered .. | ended .. => c

/-- The jobs that are to be seen to because of the mark, each with its push. -/
def wanted : Mark → List (Image.Push × Job)
  | received push jobs => (jobs.filter (needsRerun push)).map (push, ·)
  | heard _ | began .. | skipped .. | asked .. | answered .. | ended .. => []

/-- The job that was seen to with the mark, and its push. -/
def settled : Mark → List (Image.Push × Job)
  | began push job | skipped push job => [(push, job)]
  | heard _ | received .. | asked .. | answered .. | ended .. => []

end Mark

/-- What has been seen of the jobs. -/
def known (record : List Mark) : Cache Object := record.foldl Mark.tell {}

/-- The jobs as they have been seen. -/
def knownJobs (record : List Mark) : List Job := (known record).list.filterMap Object.job?

/-- The listed jobs that their pushes concern. -/
def wanted (record : List Mark) : List (Image.Push × Job) := record.flatMap Mark.wanted

/-- The jobs for which a rerun has begun or which a push has passed over. -/
def settled (record : List Mark) : List (Image.Push × Job) := record.flatMap Mark.settled

theorem known_concat (record : List Mark) (m : Mark) :
    known (record ++ [m]) = m.tell (known record) := List.foldl_concat ..

theorem wanted_concat (record : List Mark) (m : Mark) :
    wanted (record ++ [m]) = wanted record ++ m.wanted := by
  simp [wanted]

theorem settled_concat (record : List Mark) (m : Mark) :
    settled (record ++ [m]) = settled record ++ m.settled := by
  simp [settled]

/-- What a rerun leaves on its way is no matter of listings. -/
theorem frame_onWay {marks : List Mark} (hmarks : ∀ m ∈ marks, m.isOnWay = true)
    (record : List Mark) :
    known (record ++ marks) = known record ∧ wanted (record ++ marks) = wanted record ∧
      settled (record ++ marks) = settled record := by
  induction marks generalizing record with
  | nil => simp
  | cons m rest ih =>
      have hm := hmarks m List.mem_cons_self
      obtain ⟨hknown, hwanted, hsettled⟩ :=
        ih (fun m hm => hmarks m (List.mem_cons_of_mem _ hm)) (record ++ [m])
      rw [List.append_cons, hknown, hwanted, hsettled, known_concat, wanted_concat, settled_concat]
      cases m with
      | asked | answered | ended => exact ⟨rfl, List.append_nil _, List.append_nil _⟩
      | heard | received | began | skipped => cases hm

namespace Desk

variable {n : String} {d d' : Desk}

/-- A move of a rerun leaves what reruns leave on their way. -/
theorem onWay_marks (name : String) (waits : Table Wait) (s s' : Site) (r' : Reruns) :
    ∀ m ∈ marks name waits s s' r', m.isOnWay = true := by
  intro m hm
  rw [marks, List.mem_append, List.mem_append] at hm
  rcases hm with (hanswer | hcall) | hend
  · cases hwait : List.lookup name waits with
    | none => simp [hwait, answered] at hanswer
    | some wait => cases wait <;> simp_all [answered, Mark.isOnWay]
  · obtain ⟨w, -, rfl⟩ := List.mem_map.1 hcall
    rfl
  · split at hend
    · cases hend
    · rw [List.mem_singleton.1 hend]
      rfl

/-- What a desk knows is what has been seen. -/
theorem known_step (h : d.reruns.Kept) (hknown : d.cache = known d.record) (hstep : Step n d d') :
    d'.cache = known d'.record := by
  cases hstep with
  | hear e =>
      change d.cache.observe Object.name e = known (d.record ++ [.heard e])
      rw [known_concat, hknown]
      rfl
  | receive push =>
      change d.cache = known (d.record ++ [.received push d.jobs])
      rw [known_concat, hknown]
      rfl
  | @consider before after push job =>
      change d.cache = known (d.consider push job).record
      rcases consider_cases h push job with ⟨-, hsame⟩ | ⟨-, -, hskipped⟩ |
        ⟨-, -, -, hrecord⟩
      · rwa [hsame]
      · rw [hskipped, known_concat, hknown]
        rfl
      · rw [hrecord, known_concat, hknown]
        rfl
  | move htask hmove =>
      obtain ⟨_, -, rfl⟩ := Option.map_eq_some_iff.1 hmove
      exact hknown.trans (frame_onWay (onWay_marks _ _ _ _ _) d.record).1.symm
  | crash htask =>
      refine hknown.trans (frame_onWay (fun m hm => ?_) d.record).1.symm
      rw [List.mem_singleton.1 hm]
      rfl

/-- Whether a job is concerned by its push. -/
def isConcerned (p : Image.Push × Job) : Bool := needsRerun p.1 p.2

/-- The jobs that are still to be seen to. -/
def toSettle (d : Desk) : List (Image.Push × Job) := d.pending.filter isConcerned

/-- Every listed job that its push concerns is seen to once, or is pending. -/
def Accounted (d : Desk) : Prop := (settled d.record ++ d.toSettle).Perm (wanted d.record)

/-- A push adds the listed jobs that it concerns to those that are to be seen to. -/
theorem toSettle_receive (push : Image.Push) (d : Desk) :
    (d.receive push).toSettle =
      d.toSettle ++ (Mark.received push d.jobs).wanted := by
  rw [toSettle, receive, List.filter_append, List.filter_map]
  rfl

/-- With the mark of a pending job the job is settled, and not pending any more. -/
theorem accounted_settle {before after : List (Image.Push × Job)} {push : Image.Push} {job : Job}
    (hpending : d.pending = before ++ (push, job) :: after) (hneeds : needsRerun push job = true)
    {m : Mark} (hsettled : m.settled = [(push, job)]) (hwanted : m.wanted = [])
    (haccounted : d.Accounted) :
    (settled (d.record ++ [m]) ++ (before ++ after).filter isConcerned).Perm
      (wanted (d.record ++ [m])) := by
  have hconcerned : isConcerned (push, job) = true := hneeds
  have hsplit :
      d.toSettle = before.filter isConcerned ++ (push, job) :: after.filter isConcerned := by
    rw [toSettle, hpending, List.filter_append, List.filter_cons_of_pos hconcerned]
  have hmiddle : ((push, job) :: (before ++ after).filter isConcerned).Perm d.toSettle := by
    rw [hsplit, List.filter_append]
    exact List.perm_middle.symm
  rw [settled_concat, wanted_concat, hsettled, hwanted, List.append_nil, List.append_assoc]
  exact (hmiddle.append_left _).trans haccounted

/-- What leaves no mark of a listing leaves the account as it is. -/
theorem accounted_onWay {marks : List Mark} (hmarks : ∀ m ∈ marks, m.isOnWay = true)
    (haccounted : d.Accounted) :
    (settled (d.record ++ marks) ++ d.toSettle).Perm (wanted (d.record ++ marks)) := by
  obtain ⟨-, hwanted, hsettled⟩ := frame_onWay hmarks d.record
  rwa [hwanted, hsettled]

/-- **No step loses a listed job**, or sees to it twice. -/
theorem accounted_step (h : d.reruns.Kept) (haccounted : d.Accounted) (hstep : Step n d d') :
    d'.Accounted := by
  cases hstep with
  | hear e =>
      change (settled (d.record ++ [.heard e]) ++ d.toSettle).Perm (wanted (d.record ++ [.heard e]))
      rw [settled_concat, wanted_concat]
      simp only [Mark.settled, Mark.wanted, List.append_nil]
      exact haccounted
  | receive push =>
      rw [Accounted, toSettle_receive]
      change (settled (d.record ++ [.received push d.jobs]) ++ _).Perm
        (wanted (d.record ++ [.received push d.jobs]))
      rw [settled_concat, wanted_concat, ← List.append_assoc]
      refine List.Perm.append_right _ ?_
      simp only [Mark.settled, List.append_nil]
      exact haccounted
  | @consider before after push job hpending =>
      change (settled (d.consider push job).record ++
        (before ++ after).filter isConcerned).Perm
          (wanted (d.consider push job).record)
      rcases consider_cases h push job with
        ⟨hnot, hsame⟩ | ⟨hneeds, -, hskipped⟩ | ⟨hneeds, -, -, hrecord⟩
      · have hnothing : d.toSettle = (before ++ after).filter isConcerned := by
          rw [toSettle, hpending, List.filter_append, List.filter_append,
            List.filter_cons_of_neg (by simp [isConcerned, hnot])]
        rw [hsame, ← hnothing]
        exact haccounted
      · rw [hskipped]
        exact accounted_settle hpending hneeds rfl rfl haccounted
      · rw [hrecord]
        exact accounted_settle hpending hneeds rfl rfl haccounted
  | move htask hmove =>
      obtain ⟨_, -, rfl⟩ := Option.map_eq_some_iff.1 hmove
      exact accounted_onWay (onWay_marks _ _ _ _ _) haccounted
  | crash htask => exact accounted_onWay (fun m hm => List.mem_singleton.1 hm ▸ rfl) haccounted

end Desk

end ImageRollout.Rerun
