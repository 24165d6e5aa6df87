import ImageRollout.Proofs.Cluster.Informers
import ImageRollout.Proofs.Rerun.Turns

/-!
# The controller at its desk

A controller of jobs moves its informer and its reruns one at a time, and sees to all jobs of a push
at once.  Whatever it comes to, its desk can come to.

* `serves_of_works`: the runs of the controller are runs of its desk.
* `exclusive_of_works`: no two of its reruns have the same name, and all names are claimed.
-/

namespace ImageRollout.Rerun

open Cluster Kubernetes Watch

/-- The reruns of several jobs begin one after the other. -/
theorem Reruns.receive_cons (push : Image.Push) (j : Job) (rest : List Job) (r : Reruns) :
    r.receive push (j :: rest) = (r.receive push [j]).receive push rest := by
  by_cases h : needsRerun push j = true <;> simp [receive, h]

namespace Desk

variable {n : String} {d : Desk}

/-- The controller has at its desk what it keeps itself. -/
def Serves (d : Desk) (c : Controller) : Prop :=
  ∃ i, c = .jobs i d.reruns d.waits ∧ i.cache = d.cache

/-- All that a controller of jobs can come to. -/
inductive Works (n : String) : Controller → Prop
  | start : Works n (.jobs {} {} [])
  | begin {c : Controller} (h : Works n c) (stopped : Bool) : Works n (c.begin stopped)
  | deliver {c : Controller} (h : Works n c) (kind : Kind) (e : Delivery Object) :
      Works n (c.receive kind e)
  | push {i : Informer Object} {r : Reruns} {waits : Table Wait} (h : Works n (.jobs i r waits))
      (push : Image.Push) :
      Works n (.jobs i (r.receive push (i.cache.list.filterMap Object.job?)) waits)
  | move {c c' : Controller} {s s' : Site} {stopped : Bool} (h : Works n c)
      (hmove : c.move? n stopped s = some (s', c')) : Works n c'

/-- The jobs of a push can be considered one after the other. -/
theorem run_considerAll {push : Image.Push} {jobs : List Job} {before : List (Image.Push × Job)}
    (h : Run n d) (hpending : d.pending = before ++ jobs.map (push, ·)) :
    ∃ d', Run n d' ∧ d'.reruns = d.reruns.receive push jobs ∧ d'.waits = d.waits ∧
      d'.cache = d.cache := by
  induction jobs generalizing d with
  | nil => exact ⟨d, h, rfl, rfl, rfl⟩
  | cons j rest ih =>
      have hnext := h.next (.consider hpending)
      obtain ⟨d', hrun, hreruns, hwaits, hcache⟩ := ih hnext rfl
      rw [Reruns.receive_cons]
      exact ⟨d', hrun, hreruns, hwaits, hcache⟩

/-- An informer that moves has heard of nothing, or of one event. -/
theorem run_drive (h : Run n d) {i i' : Informer Object} {s s' : Site} {stopped : Bool}
    (hcache : i.cache = d.cache)
    (hdrive : Controller.driveSilently? .job n stopped i s = some (s', i')) :
    ∃ d', Run n d' ∧ d'.reruns = d.reruns ∧ d'.waits = d.waits ∧ i'.cache = d'.cache := by
  rcases (Controller.driveSilently?_cases hdrive).1 with hsame | ⟨e, hheard, -⟩
  · exact ⟨d, h, rfl, rfl, hsame.trans hcache⟩
  · refine ⟨d.hear e, h.next (.hear e), rfl, rfl, ?_⟩
    rw [hheard, hcache]
    rfl

/-- **What a controller of jobs does is a run of its desk.** -/
theorem serves_of_works {c : Controller} (h : Works n c) : ∃ d, Run n d ∧ d.Serves c := by
  induction h with
  | start => exact ⟨{}, .start, {}, rfl, rfl⟩
  | begin _ stopped ih =>
      obtain ⟨d, hrun, i, rfl, hcache⟩ := ih
      refine ⟨d, hrun, if stopped then i.stop else i.start, rfl, ?_⟩
      rw [← hcache, apply_ite Informer.cache, Informer.cache_start]
      exact ite_self _
  | deliver _ kind e ih =>
      obtain ⟨d, hrun, i, rfl, hcache⟩ := ih
      refine ⟨d, hrun, if .job = kind then i.receive e else i, rfl, ?_⟩
      rw [← hcache, apply_ite Informer.cache, Informer.cache_receive]
      exact ite_self _
  | push _ push ih =>
      obtain ⟨d, hrun, i, heq, hcache⟩ := ih
      cases heq
      obtain ⟨d', hrun', hreruns, hwaits, hcache'⟩ :=
        run_considerAll (hrun.next (.receive push)) rfl
      refine ⟨d', hrun', _, ?_, hcache.trans hcache'.symm⟩
      rw [hreruns, hwaits, hcache]
      rfl
  | @move c c' s s' stopped _ hmove ih =>
      obtain ⟨d, hrun, i, rfl, hcache⟩ := ih
      rw [Controller.move?] at hmove
      cases hdrive : Controller.driveSilently? .job n stopped i s with
      | some moved =>
          rw [hdrive] at hmove
          cases hmove
          obtain ⟨d', hrun', hreruns, hwaits, hcache'⟩ := run_drive hrun hcache hdrive
          exact ⟨d', hrun', moved.2, by rw [hreruns, hwaits], hcache'⟩
      | none =>
          rw [hdrive] at hmove
          obtain ⟨⟨s', r', waits'⟩, hreruns, heq⟩ := Option.map_eq_some_iff.1 hmove
          cases heq
          obtain ⟨⟨name, t⟩, htask, hrerun⟩ := List.exists_of_findSome?_eq_some hreruns
          have hstep : d.move? n name t s = some _ := congrArg (Option.map _) hrerun
          exact ⟨_, hrun.next (.move htask hstep), i, rfl, hcache⟩

/-- A controller never has two reruns of a name, and has claimed just the names of its reruns. -/
theorem exclusive_of_works {i : Informer Object} {r : Reruns} {waits : Table Wait}
    (h : Works n (.jobs i r waits)) :
    r.tasks.names.Nodup ∧ ∀ name, r.claims.isClaimed name = r.tasks.has name := by
  obtain ⟨d, hrun, _, heq, -⟩ := serves_of_works h
  cases heq
  have hkept := (sound_run hrun).kept
  exact ⟨hkept.distinct, hkept.claimed⟩

end Desk

end ImageRollout.Rerun
