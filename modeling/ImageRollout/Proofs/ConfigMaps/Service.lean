import ImageRollout.Proofs.Cluster.FirstLists
import ImageRollout.Proofs.ConfigMaps.Restarts

/-!
# The controller and its restarts

A controller of config maps moves its two informers and its restarts one at a time, is started and
stopped, and is delivered what its watches report.  Whatever comes of it is a run of its restarts,
and the record of that run tells all that the controller has written and reported.

* `Works`: all that the controller can come to.
* `serves_drive`, `serves_move`: what its moves are.
* `run_of_works`: that is a run of the restarts.
-/

namespace ImageRollout.ConfigMaps.Restarter

open Cluster Kubernetes Watch

variable {n : String} {t : Restarter} {c c' : Controller} {s s' : Site} {stopped : Bool}

/-- All that a controller of the config maps of a namespace can come to, with all that it has
written and reported. -/
inductive Works (n : String) : Controller → List Write → List Notice → Prop
  | start : Works n (.configMaps {} {} {} none) [] []
  | begin {c : Controller} {writes : List Write} {notices : List Notice}
      (h : Works n c writes notices) (stopped : Bool) : Works n (c.begin stopped) writes notices
  | deliver {c : Controller} {writes : List Write} {notices : List Notice}
      (h : Works n c writes notices) (kind : Kind) (d : Delivery Object) :
      Works n (c.receive kind d) writes notices
  | move {c c' : Controller} {s s' : Site} {stopped : Bool} {writes : List Write}
      {notices : List Notice} (h : Works n c writes notices)
      (hmove : c.move? n stopped s = some (s', c')) :
      Works n c' (writes ++ added s.writes s'.writes) (notices ++ added s.notices s'.notices)

/-- The restarts have what the controller keeps itself. -/
def Serves (t : Restarter) (c : Controller) : Prop :=
  ∃ d m : Informer Object, c = .configMaps d m t.versions t.restarting ∧
    d.cache = t.deployments ∧ d.ListsFirst

/-- A move from one scene to the other leads to a run, with marks that tell what was added. -/
def Leads (n : String) (t : Restarter) (s s' : Site) (c' : Controller) : Prop :=
  ∃ t' marks, (Run n t → Run n t') ∧ t'.Serves c' ∧ t'.record = t.record ++ marks ∧
    added s.writes s'.writes = marks.flatMap Mark.writes ∧
    added s.notices s'.notices = marks.flatMap Mark.notices

theorem serves_begin (h : t.Serves c) (stopped : Bool) : t.Serves (c.begin stopped) := by
  obtain ⟨d, m, rfl, hcache, hfirst⟩ := h
  cases stopped with
  | true => exact ⟨d.stop, m.stop, rfl, hcache, Informer.listsFirst_stop d⟩
  | false =>
      exact ⟨d.start, m.start, rfl, (Informer.cache_start d).trans hcache,
        Informer.listsFirst_start hfirst⟩

theorem serves_receive (h : t.Serves c) (kind : Kind) (e : Delivery Object) :
    t.Serves (c.receive kind e) := by
  obtain ⟨d, m, rfl, hcache, hfirst⟩ := h
  refine ⟨if .deployment = kind then d.receive e else d,
    if .configMap = kind then m.receive e else m, rfl, ?_, ?_⟩
  · rw [← hcache, apply_ite Informer.cache, Informer.cache_receive]
    exact ite_self _
  · split
    · exact Informer.listsFirst_receive hfirst e
    · exact hfirst

/-- A move that adds nothing to the scene, and of which nothing is heard. -/
theorem leads_of_serves (h : t.Serves c') (hwrites : s'.writes = s.writes)
    (hnotices : s'.notices = s.notices) : Leads n t s s' c' :=
  ⟨t, [], id, h, (List.append_nil _).symm, by rw [hwrites, added_self]; rfl,
    by rw [hnotices, added_self]; rfl⟩

/-- **A move of the informer on deployments** shows one event, or nothing. -/
theorem leads_drive {d d' m : Informer Object} (hcache : d.cache = t.deployments)
    (hfirst : d.ListsFirst)
    (hdrive : Controller.driveSilently? .deployment n stopped d s = some (s', d')) :
    Leads n t s s' (.configMaps d' m t.versions t.restarting) := by
  rw [Controller.driveSilently?] at hdrive
  split at hdrive
  · split at hdrive
    · cases hdrive
      exact leads_of_serves ⟨d.stop, m, rfl, hcache, Informer.listsFirst_stop d⟩ rfl rfl
    · cases hdrive
  · obtain ⟨⟨s₁, d₁, e?⟩, hdriven, heq⟩ := Option.map_eq_some_iff.1 hdrive
    cases heq
    obtain ⟨hwrites, hnotices, hnow, hkept⟩ := Site.drive?_cases hdriven
    obtain ⟨hfirst', hopen⟩ := hkept hfirst
    cases e? with
    | none => exact leads_of_serves ⟨d', m, rfl, hnow.trans hcache, hfirst'⟩ hwrites hnotices
    | some e =>
        refine ⟨t.see e, [.saw e], fun hrun => hrun.next (.see fun hchange => ?_),
          ⟨d', m, rfl, ?_, hfirst'⟩, rfl, ?_, ?_⟩
        · rw [← hcache]
          exact hopen e rfl hchange
        · rw [hnow, Option.elim_some, hcache]
          rfl
        · rw [hwrites, added_self]
          rfl
        · rw [hnotices, added_self]
          rfl

/-- **A move of the restarts** is one of the run. -/
theorem leads_restarts {d m : Informer Object} {r : Restarting} {r' : Option Restarting}
    (hcache : d.cache = t.deployments) (hfirst : d.ListsFirst) (hr : t.restarting = some r)
    (hmove : Controller.moveRestarts? n d.cache r s = some (s', r')) :
    Leads n t s s' (.configMaps d m t.versions r') := by
  rw [hcache] at hmove
  have hstep : t.move? n s = some (s', { t with
      restarting := r', record := t.record ++ [.ofMove r s s'] }) := by
    simp [move?, hr, hmove]
  obtain ⟨s₁, t₁, mark, hmoved, hrecord, hwrites, hnotices, -, -⟩ :=
    move?_cases (n := n) hr (over?_of_moveRestarts? hmove)
  rw [hstep] at hmoved
  cases hmoved
  refine ⟨_, [mark], fun hrun => hrun.next (.move hstep), ⟨d, m, rfl, hcache, hfirst⟩,
    hrecord, ?_, ?_⟩
  · rw [hwrites, added_append, List.flatMap_singleton]
  · rw [hnotices, added_append, List.flatMap_singleton]

/-- **A move of the informer on config maps** between restarts calls for some, or for none. -/
theorem leads_hear {d m m' : Informer Object} {e? : Option (Event Object)}
    (hcache : d.cache = t.deployments) (hfirst : d.ListsFirst) (hidle : t.restarting = none)
    (hdriven : s.drive? .configMap n m = some (s', m', e?)) :
    match e? with
    | none => Leads n t s s' (.configMaps d m' t.versions none)
    | some e =>
      let (v, r, notices) := Controller.restartsFor t.versions e
      Leads n t s (s'.report notices) (.configMaps d m' v r) := by
  obtain ⟨hwrites, hnotices, -, -⟩ := Site.drive?_cases hdriven
  cases e? with
  | none => exact leads_of_serves ⟨d, m', by rw [hidle], hcache, hfirst⟩ hwrites hnotices
  | some e =>
      refine ⟨t.hear e, [.heard e _], fun hrun => hrun.next (.hear e hidle),
        ⟨d, m', rfl, hcache, hfirst⟩, rfl, ?_, ?_⟩
      · exact (congrArg (added s.writes) hwrites).trans (added_self _)
      · rw [Site.report, hnotices, added_append]
        exact (List.append_nil _).symm

/-- **Every move of the controller** is one of these. -/
theorem leads_move (h : t.Serves c) (hmove : c.move? n stopped s = some (s', c')) :
    Leads n t s s' c' := by
  obtain ⟨d, m, rfl, hcache, hfirst⟩ := h
  -- The informer on deployments goes first, and the one on config maps waits for the restarts.
  cases hdrive : Controller.driveSilently? .deployment n stopped d s with
  | some driven =>
      obtain ⟨s₁, d₁⟩ := driven
      have hdriven := leads_drive (m := m) hcache hfirst hdrive
      cases hr : t.restarting <;> rw [hr] at hmove hdriven <;>
        simp only [Controller.move?, hdrive] at hmove <;> cases hmove <;> exact hdriven
  | none =>
      cases hr : t.restarting with
      | some r =>
          simp only [hr, Controller.move?, hdrive] at hmove
          obtain ⟨⟨s₁, r₁⟩, hmoved, heq⟩ := Option.map_eq_some_iff.1 hmove
          cases heq
          exact leads_restarts hcache hfirst hr hmoved
      | none =>
          simp only [hr, Controller.move?, hdrive] at hmove
          split at hmove
          · split at hmove
            · cases hmove
              exact leads_of_serves ⟨d, m.stop, by rw [hr], hcache, hfirst⟩ rfl rfl
            · cases hmove
          · split at hmove
            next => cases hmove
            next hdriven =>
              cases hmove
              exact leads_hear hcache hfirst hr hdriven
            next hdriven =>
              cases hmove
              exact leads_hear hcache hfirst hr hdriven

/-- **What a controller of config maps comes to is a run of its restarts**, and the record of the
run tells everything that it has written and reported, in order. -/
theorem run_of_works {writes : List Write} {notices : List Notice} (h : Works n c writes notices) :
    ∃ t, Run n t ∧ t.Serves c ∧ t.record.flatMap Mark.writes = writes ∧
      t.record.flatMap Mark.notices = notices := by
  induction h with
  | start => exact ⟨{}, .start, ⟨{}, {}, rfl, rfl, Informer.listsFirst_new⟩, rfl, rfl⟩
  | begin _ stopped ih =>
      obtain ⟨t, hrun, hserves, htold⟩ := ih
      exact ⟨t, hrun, serves_begin hserves stopped, htold⟩
  | deliver _ kind e ih =>
      obtain ⟨t, hrun, hserves, htold⟩ := ih
      exact ⟨t, hrun, serves_receive hserves kind e, htold⟩
  | move _ hmove ih =>
      obtain ⟨t, hrun, hserves, rfl, rfl⟩ := ih
      obtain ⟨t', marks, hgoes, hserves', hrecord, hwrites, hnotices⟩ :=
        leads_move hserves hmove
      refine ⟨t', hgoes hrun, hserves', ?_, ?_⟩
      · rw [hrecord, List.flatMap_append, hwrites]
      · rw [hrecord, List.flatMap_append, hnotices]

end ImageRollout.ConfigMaps.Restarter
