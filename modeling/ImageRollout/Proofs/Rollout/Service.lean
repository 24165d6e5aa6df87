import ImageRollout.Cluster.World
import ImageRollout.Proofs.Cluster.Informers
import ImageRollout.Proofs.Rollout.Belated

/-!
# The controller in the traffic

A controller of deployments moves its informer, is delivered what its watch reports, and makes plans
when a push is given to it.  As long as lists and watches show what there is or was, whatever comes
of it is part of the traffic about every single deployment.

* `Works`: all that the controller can come to.
* `run_of_works`: that is a run of the traffic.
-/

namespace ImageRollout.Rollout.Traffic

open Cluster Image Kubernetes Watch

variable {n name : String} {t : Traffic} {c : Controller}

/-- All that a controller of the deployments of a namespace can come to, together with what goes on
about the deployment of a name. -/
inductive Works (n name : String) : Traffic → Controller → Prop
  | start {d : Deployment} (hname : d.name = name) :
      Works n name { written := d } (.deployments {})
  | edit {t : Traffic} {c : Controller} {d : Deployment} (h : Works n name t c)
      (hname : d.name = name) : Works n name (t.edit d) c
  | begin {t : Traffic} {c : Controller} (h : Works n name t c) (stopped : Bool) :
      Works n name t (c.begin stopped)
  | deliver {t : Traffic} {c : Controller} (h : Works n name t c) (kind : Kind)
      {e : Delivery Object} (hshown : ∀ o, e.object? = some o → t.MayShow name o) :
      Works n name t (c.receive kind e)
  | move {t : Traffic} {i i' : Informer Object} {s s' : Site} {stopped : Bool}
      (h : Works n name t (.deployments i))
      (hlisted : ∀ o ∈ s.server.list .deployment n, t.MayShow name o)
      (hmove : Controller.move? n stopped s (.deployments i) = some (s', .deployments i')) :
      Works n name { t with cache := i'.cache } (.deployments i')
  | give {t : Traffic} {c : Controller} {w : World} {kind : String} {given after : Handout}
      (h : Works n name t c) (hcontroller : w.controller? n kind = some c)
      (hgive : (w.giveTo n kind given).handout = some after) :
      Works n name
        { t with
          underway := t.underway ++
            (after.plans.filter (·.deployment = name)).map (given.push, ·) } c
  | land {t : Traffic} {c : Controller} {before after : List (Push × Plan)} {push : Push}
      {p : Plan} (h : Works n name t c) (hunderway : t.underway = before ++ (push, p) :: after) :
      Works n name { t.land p with underway := before ++ after } c
  | lose {t : Traffic} {c : Controller} {before after : List (Push × Plan)} {push : Push}
      {p : Plan} (h : Works n name t c) (hunderway : t.underway = before ++ (push, p) :: after) :
      Works n name { t with underway := before ++ after } c

/-- The traffic has what the controller knows, and no more is on its way to it than may be shown. -/
def Serves (name : String) (t : Traffic) (c : Controller) : Prop :=
  ∃ i, c = .deployments i ∧ i.cache = t.cache ∧ ∀ o ∈ i.coming, t.MayShow name o

/-- What happens to the deployment leaves the controller as well informed as it was. -/
theorem serves_step {t' : Traffic} (h : t.Serves name c) (hstep : Step name t t')
    (hcache : t'.cache = t.cache) : t'.Serves name c := by
  obtain ⟨i, rfl, hknown, hcoming⟩ := h
  exact ⟨i, rfl, hknown.trans hcache.symm, fun o ho => mayShow_step hstep (hcoming o ho)⟩

/-- A controller that is begun knows what it knew, and has no more on its way. -/
theorem serves_begin (h : t.Serves name c) (stopped : Bool) : t.Serves name (c.begin stopped) := by
  obtain ⟨i, rfl, hknown, hcoming⟩ := h
  refine ⟨if stopped then i.stop else i.start, rfl, ?_, ?_⟩
  · rw [← hknown, apply_ite Informer.cache, Informer.cache_start]
    exact ite_self _
  · cases stopped with
    | true => simp [Informer.coming_stop]
    | false => exact fun o ho => hcoming o (Informer.coming_start i ho)

/-- A delivery is on its way if what it shows may be shown. -/
theorem serves_receive (h : t.Serves name c) (kind : Kind) {e : Delivery Object}
    (hshown : ∀ o, e.object? = some o → t.MayShow name o) :
    t.Serves name (c.receive kind e) := by
  obtain ⟨i, rfl, hknown, hcoming⟩ := h
  refine ⟨if .deployment = kind then i.receive e else i, rfl, ?_, ?_⟩
  · rw [← hknown, apply_ite Informer.cache, Informer.cache_receive]
    exact ite_self _
  · split
    · intro o ho
      rcases List.mem_append.1 (Informer.coming_receive e i ho) with hold | hnew
      · exact hcoming o hold
      · exact hshown o (Option.mem_toList.1 hnew)
    · exact hcoming

/-- An informer that moves has heard of nothing, or of one event about what may be shown. -/
theorem serves_move {i i' : Informer Object} {s s' : Site} {stopped : Bool} (hrun : Run name t)
    (h : t.Serves name (.deployments i))
    (hlisted : ∀ o ∈ s.server.list .deployment n, t.MayShow name o)
    (hmove : Controller.move? n stopped s (.deployments i) = some (s', .deployments i')) :
    Run name { t with cache := i'.cache } ∧
      Serves name { t with cache := i'.cache } (.deployments i') := by
  obtain ⟨_, hi, hknown, hcoming⟩ := h
  cases hi
  obtain ⟨⟨s₁, i₁⟩, hdrive, heq⟩ := Option.map_eq_some_iff.1 hmove
  cases heq
  obtain ⟨hheard, hnow⟩ := Controller.driveSilently?_cases hdrive
  have hshows : ∀ o ∈ i'.coming, t.MayShow name o := by
    intro o ho
    rcases List.mem_append.1 (hnow ho) with hold | hlist
    · exact hcoming o hold
    · exact hlisted o hlist
  refine ⟨?_, i', rfl, rfl, hshows⟩
  rcases hheard with hsame | ⟨e, hnew, hobject⟩
  · rw [hsame, hknown]
    exact hrun
  · rw [hnew, hknown]
    exact hrun.next (.hear fun o ho => hcoming o (hobject o ho))

/-- **What a controller of deployments comes to is a run of the traffic.** -/
theorem run_of_works (h : Works n name t c) : Run name t ∧ t.Serves name c := by
  induction h with
  | start hname =>
      exact ⟨.start hname, {}, rfl, rfl, by simp [Informer.coming, Link.objects]⟩
  | @edit t c d _ hname ih =>
      have hstep : Step name t (t.edit d) := .edit hname
      exact ⟨ih.1.next hstep, serves_step ih.2 hstep rfl⟩
  | begin _ stopped ih => exact ⟨ih.1, serves_begin ih.2 stopped⟩
  | deliver _ kind hshown ih => exact ⟨ih.1, serves_receive ih.2 kind hshown⟩
  | move _ hlisted hmove ih => exact serves_move ih.1 ih.2 hlisted hmove
  | @give t c w kind given after _ hcontroller hgive ih =>
      obtain ⟨i, rfl, hknown, -⟩ := ih.2
      have hplans : after.plans = plan given.push t.known := by
        rw [World.giveTo, hcontroller] at hgive
        cases hgive
        rw [known, ← hknown]
      have hstep : Step name t (t.receive name given.push) := .receive given.push
      rw [hplans]
      exact ⟨ih.1.next hstep, serves_step ih.2 hstep rfl⟩
  | land _ hunderway ih =>
      exact ⟨ih.1.next (.land hunderway), serves_step ih.2 (.land hunderway) rfl⟩
  | lose _ hunderway ih =>
      exact ⟨ih.1.next (.lose hunderway), serves_step ih.2 (.lose hunderway) rfl⟩

end ImageRollout.Rollout.Traffic
