import ImageRollout.Proofs.Rerun.Listings
import ImageRollout.Proofs.Rerun.Progress
import ImageRollout.Proofs.Sequences

/-!
# Reruns take turns

However pushes, reruns and what is seen of the jobs interleave, the reruns of one name follow each
other, and each follows a script until it ends or panics.  Every listed job that a push concerns is
seen to, and is passed over only while a rerun of its name is under way.

* `Justified`: what is to be said for every mark of the record.
* `Desk.sound_step`, `Desk.sound_run`: what holds of a desk after every step.
* `Desk.reruns_in_turn`: what a run leaves in the record.
-/

namespace ImageRollout.Rerun

open Cluster Kubernetes Watch

/-- A push has come in while the job was known. -/
def Listed (push : Image.Push) (job : Job) (record : List Mark) : Prop :=
  ∃ jobs, .received push jobs ∈ record ∧ job ∈ jobs

/-- With a push all jobs are listed that have been seen.  A rerun begins for a job that the push
concerns, unless one of its name is under way; then the push passes over the job. -/
def Mark.Justified (before : List Mark) : Mark → Prop
  | received _ jobs => jobs = knownJobs before
  | began push job =>
    Listed push job before ∧ needsRerun push job = true ∧ alive job.name before = false
  | skipped push job =>
    Listed push job before ∧ needsRerun push job = true ∧ alive job.name before = true
  | heard _ | asked .. | answered .. | ended .. => True

/-- Every mark is justified by what is recorded before it. -/
def Justified (record : List Mark) : Prop :=
  ∀ before m after, record = before ++ m :: after → m.Justified before

/-- A mark that is justified by a justified record may be added to it. -/
theorem justified_concat {record : List Mark} {m : Mark} (h : Justified record)
    (hm : m.Justified record) : Justified (record ++ [m]) := by
  intro before m' after heq
  rcases split_concat heq with ⟨rfl, rfl, -⟩ | ⟨others, -, hrecord⟩
  · exact hm
  · exact h before m' others hrecord

/-- Marks that need no justification may be added to a justified record. -/
theorem justified_append {record marks : List Mark} (h : Justified record)
    (hmarks : ∀ m ∈ marks, ∀ before, m.Justified before) : Justified (record ++ marks) := by
  induction marks generalizing record with
  | nil => rwa [List.append_nil]
  | cons m rest ih =>
      rw [List.append_cons]
      refine ih (justified_concat h (hmarks m List.mem_cons_self record)) ?_
      exact fun m hm => hmarks m (List.mem_cons_of_mem _ hm)

namespace Desk

variable {n : String} {d d' : Desk}

/-- What holds of a desk however it is worked at. -/
structure Sound (n : String) (d : Desk) : Prop extends Steady n d where
  known : d.cache = Rerun.known d.record
  listed : ∀ p ∈ d.pending, Listed p.1 p.2 d.record
  justified : Justified d.record
  accounted : d.Accounted

/-- The reruns under way are those of which the record tells so. -/
theorem alive_iff (h : d.Sound n) (name : String) :
    d.reruns.tasks.has name = alive name d.record :=
  (h.threads name).alive.symm

/-- Nothing that a rerun leaves on its way needs justification. -/
theorem justified_onWay {m : Mark} (hm : m.isOnWay = true) (before : List Mark) :
    m.Justified before := by
  cases m with
  | asked | answered | ended => trivial
  | heard | received | began | skipped => cases hm

/-- No step unlists what was listed. -/
theorem listed_append {push : Image.Push} {job : Job} {record : List Mark}
    (h : Listed push job record) (marks : List Mark) : Listed push job (record ++ marks) := by
  obtain ⟨jobs, hreceived, hjob⟩ := h
  exact ⟨jobs, List.mem_append_left _ hreceived, hjob⟩

/-- **No step unsettles the desk.** -/
theorem sound_step (h : d.Sound n) (hstep : Step n d d') : d'.Sound n := by
  suffices hrest : (∀ p ∈ d'.pending, Listed p.1 p.2 d'.record) ∧ Justified d'.record from
    ⟨steady_step h.toSteady hstep, known_step h.kept h.known hstep, hrest.1, hrest.2,
      accounted_step h.kept h.accounted hstep⟩
  cases hstep with
  | hear e =>
      exact ⟨fun p hp => listed_append (h.listed p hp) _, justified_concat h.justified trivial⟩
  | receive push =>
      refine ⟨fun p hp => ?_, justified_concat h.justified ?_⟩
      swap
      · exact congrArg (fun c : Cache Object => c.list.filterMap Object.job?) h.known
      rcases List.mem_append.1 hp with hold | hnew
      · exact listed_append (h.listed p hold) _
      · obtain ⟨job, hjob, rfl⟩ := List.mem_map.1 hnew
        exact ⟨d.jobs, List.mem_append_right _ List.mem_cons_self, hjob⟩
  | @consider before after push job hpending =>
      have hlisted : Listed push job d.record := h.listed (push, job) (by simp [hpending])
      have hothers : ∀ p ∈ before ++ after, Listed p.1 p.2 d.record := by
        intro p hp
        have hsub : (before ++ after).Sublist d.pending := by simp [hpending]
        exact h.listed p (hsub.subset hp)
      have halive := alive_iff h job.name
      rcases consider_cases h.kept push job with
        ⟨-, hsame⟩ | ⟨hneeds, hhas, hskipped⟩ | ⟨hneeds, hfree, -, hrecord⟩
      · rw [hsame]
        exact ⟨hothers, h.justified⟩
      · rw [hskipped]
        refine ⟨fun p hp => listed_append (hothers p hp) _, justified_concat h.justified ?_⟩
        exact ⟨hlisted, hneeds, halive.symm.trans hhas⟩
      · rw [hrecord]
        refine ⟨fun p hp => listed_append (hothers p hp) _, justified_concat h.justified ?_⟩
        exact ⟨hlisted, hneeds, halive.symm.trans hfree⟩
  | move htask hmove =>
      obtain ⟨_, -, rfl⟩ := Option.map_eq_some_iff.1 hmove
      refine ⟨fun p hp => listed_append (h.listed p hp) _, justified_append h.justified ?_⟩
      exact fun m hm => justified_onWay (onWay_marks _ _ _ _ _ m hm)
  | crash htask =>
      exact ⟨fun p hp => listed_append (h.listed p hp) _, justified_concat h.justified trivial⟩

/-- **No run unsettles the desk.** -/
theorem sound_run (h : Run n d) : d.Sound n := by
  induction h with
  | start =>
      refine ⟨steady_start n, rfl, by simp, ?_, .refl _⟩
      intro before m after heq
      cases before <;> cases heq
  | next _ hstep ih => exact sound_step ih hstep

/-- **Reruns take turns.**  Let pushes come in, jobs be listed and seen to change, and reruns move
and panic in any order, whatever the API server answers.  Of each name one rerun is under way at
most, and its name is claimed for exactly as long.  What the reruns of a name ask for is one chapter
after the other, each of which follows a script: the deletion, then up to three creations of the
copy, as far as the answers demand them.  Only a panic cuts a script short, and only the last one
may be unfinished; unless the rerun panics, a job stays deleted only if all three creations are
refused.

With every push all jobs are listed that are known from what was seen.  For each of them that the
push concerns a rerun begins, or it is passed over, once and no more often, unless it is still
pending; and it is passed over only while a rerun of its name is under way.

A rerun under way moves as soon as an answer or the end of a pause has come, and unless it waits for
an answer that never comes, a few moves bring it to its end, where its name is free. -/
theorem reruns_in_turn (h : Run n d) :
    d.reruns.tasks.names.Nodup ∧
    (∀ name, d.reruns.tasks.has name = alive name d.record ∧
      d.reruns.claims.isClaimed name = alive name d.record) ∧
    (∀ name, ∃ (chapters : List Chapter) (last : List Mark),
      d.record.filter (·.isOf name) = chapters.flatMap Chapter.text ++ last ∧
      (∀ c ∈ chapters, c.job.name = name ∧ c.Lawful n ∧
        (c.LeavesDeleted n → c.panicked = true ∨ c.calls = refusals n c.job 3)) ∧
      if alive name d.record then
        ∃ push job calls,
          last = .began push job :: calls ∧ job.name = name ∧ Begun n job calls
      else last = []) ∧
    Justified d.record ∧
    (∀ push job, needsRerun push job = true → (d.consider push job).reruns.tasks =
      if alive job.name d.record then d.reruns.tasks
      else d.reruns.tasks ++ [(job.name, { job := job })]) ∧
    d.jobs = knownJobs d.record ∧
    (settled d.record ++ d.pending.filter isConcerned).Perm (wanted d.record) ∧
    (∀ name t, (name, t) ∈ d.reruns.tasks → d.GetsOn n name t ∧ d.left name ≤ 12) := by
  have hsound := sound_run h
  have halive := alive_iff hsound
  refine ⟨hsound.kept.distinct, fun name => ⟨halive name, ?_⟩, fun name => ?_,
    hsound.justified, fun push job hneeds => ?_, ?_, hsound.accounted,
    fun name t htask => ⟨?_, ?_⟩⟩
  · rw [hsound.kept.claimed, halive]
  · obtain ⟨chapters, push, hchapters, htext⟩ := (hsound.threads name).told
    refine ⟨chapters, _, htext, fun c hc => ?_, ?_⟩
    · obtain ⟨hname, hlawful⟩ := hchapters c hc
      exact ⟨hname, hlawful, exhausted_of_leavesDeleted hlawful⟩
    · rw [← halive, Table.has]
      cases htask : List.lookup name d.reruns.tasks with
      | none => simp [Thread.current, thread, htask]
      | some t =>
          obtain ⟨calls, hcurrent, hbegun⟩ := Thread.begun_current (hsound.threads name) htask
          exact ⟨push, t.job, calls, hcurrent push, (hsound.threads name).named t htask, hbegun⟩
  · rcases consider_cases hsound.kept push job with
      ⟨hnot, -⟩ | ⟨-, hhas, hskipped⟩ | ⟨-, hfree, htasks, -⟩
    · rw [hneeds] at hnot
      cases hnot
    · rw [hskipped, ← halive, hhas, if_pos rfl]
    · rw [htasks, ← halive, hfree, if_neg Bool.false_ne_true]
  · exact congrArg (fun c : Cache Object => c.list.filterMap Object.job?) hsound.known
  · exact getsOn hsound.toSteady htask
  · exact left_le hsound.toSteady name

/-- A job that takes part and runs an image. -/
def nightly : Job :=
  let container : Container := { name := "main", image := some "app:1" }
  { metadata := { name := some "nightly", annotations := some [(optInKey, "true")] }
    spec := some { template := { spec := some { containers := [container] } } } }

/-- The image of the job under a tag. -/
def tagged (tag : String) : Image.Push := { image := "app", tag }

/-- What is known when one job was seen. -/
def nightShift : Cache Object := ({} : Cache Object).observe Object.name (.applied (.job nightly))

/-- A push that comes in when one job is known is considered for it. -/
theorem run_push {n : String} {d : Desk} (h : Run n d) (hcache : d.cache = nightShift)
    (hpending : d.pending = []) (push : Image.Push) :
    Run n
      { d with
        reruns := d.reruns.receive push [nightly]
        record := d.record ++ [.received push [nightly]] ++ notes push nightly d.reruns } := by
  have hjobs : d.jobs = [nightly] := by
    rw [jobs, hcache]
    simp [nightShift, Cache.observe, Cache.list, Text.sortByKey, Table.insert, Table.erase,
      Object.job?]
  have hsplit : (d.receive push).pending = [] ++ (push, nightly) :: [] := by
    simp [receive, hpending, hjobs]
  have hnext := (h.next (.receive push)).next (.consider hsplit)
  simpa [consider, receive, hjobs, hpending] using hnext

/-- A push during the rerun passes over the job, and one after its panic reruns it. -/
theorem rerun_after_panic :
    ∃ d : Desk, Run "team" d ∧ d.reruns.claims.isClaimed "nightly" = true ∧
      (settled d.record ++ d.pending.filter isConcerned).Perm (wanted d.record) ∧ d.record =
      [.heard (.applied (.job nightly)),
        .received (tagged "2") [nightly], .began (tagged "2") nightly,
        deletion "team" nightly, .answered "nightly" true,
        .received (tagged "3") [nightly], .skipped (tagged "3") nightly,
        creation "team" nightly, .ended "nightly" true,
        .received (tagged "3") [nightly], .began (tagged "3") nightly] := by
  have hknown : Run "team" (({} : Desk).hear (.applied (.job nightly))) := Run.start.next (.hear _)
  have hbegun := run_push hknown rfl rfl (tagged "2")
  have hasked := hbegun.next (.move (s := {}) (List.mem_singleton.2 rfl) rfl)
  have hdeleted := hasked.next (.move (s := { now := ⟨0, 1⟩ }) (List.mem_singleton.2 rfl) rfl)
  have hskipped := run_push hdeleted rfl rfl (tagged "3")
  have hcreating := hskipped.next (.move (s := {}) (List.mem_singleton.2 rfl) rfl)
  have hcrashed := hcreating.next (@Step.crash _ _ "nightly" rfl)
  have hlast := run_push hcrashed rfl rfl (tagged "3")
  obtain ⟨-, hclaimed, -, -, -, -, haccounted, -⟩ := reruns_in_turn hlast
  refine ⟨_, hlast, ?_, haccounted, rfl⟩
  rw [(hclaimed "nightly").2]
  rfl

end Desk

end ImageRollout.Rerun
