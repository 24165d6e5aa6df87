import ImageRollout.Notification.GitHub
import ImageRollout.Notification.Harbor
import ImageRollout.Proofs.Cluster.Images

/-!
# Where pushes lead

A cluster whose caches are up to date whenever a push comes in, and whose API server carries every
patch out, is brought by any pushes into a state that can be told from the pushes alone.  The
managed namespaces and their deployments are visited in any order.

* `visit_plan`: what the plans of a push do to a deployment.
* `giveTo_eq`, `giveOut_eq`: what one controller and all of them do to the cluster.
* `run_eq`: what a run does to it.
* `converges`: the state that is reached, and that it is a state of rest.
-/

namespace ImageRollout.Cluster

open Image Kubernetes Rollout

/-- The body of a notification. -/
inductive Body where
  | harbor (bytes : List UInt8)
  | gitHub (bytes : List UInt8)

/-- The pushes that a body announces. -/
def Body.pushes : Body → List Push
  | harbor bytes => Notification.Harbor.pushes bytes
  | gitHub bytes => (Notification.GitHub.push? bytes).toList

/-- The object after the patch of a plan for a namespace. -/
def Object.patched (n : String) (p : Plan) : Object → Object
  | deployment d =>
    if (deployment d).namespaceName = n ∧ d.name = p.deployment then deployment (p.patch.apply d)
    else deployment d
  | o => o

namespace Server

/-- The patch of a plan is carried out. -/
def carryOut (n : String) (p : Plan) (s : Server) : Server :=
  { s with objects := s.objects.map (Object.patched n p) }

/-- The controller of a namespace's deployments deals with a push: it makes its plans from what it
knows and has them carried out one by one. -/
def giveTo (push : Push) (n : String) (known : List Deployment) (s : Server) : Server :=
  (plan push known).foldl (fun s p => s.carryOut n p) s

/-- The controllers of some namespaces deal with a push in turn. -/
def giveOut (push : Push) (caches : String → List Deployment) (order : List String)
    (s : Server) : Server :=
  order.foldl (fun s n => s.giveTo push n (caches n)) s

/-- What comes of a cluster when pushes are given out one after the other.  Before every push the
caches of the managed namespaces hold what the cluster holds, in whatever order. -/
inductive Run (managed : List String) : List Push → Server → Server → Prop
  | start {s : Server} : Run managed [] s s
  | next {past : List Push} {push : Push} {s s' : Server} {order : List String}
      {caches : String → List Deployment} (hrun : Run managed past s s')
      (horder : order.Perm managed)
      (hcaches : ∀ n ∈ managed, (caches n).Perm (s'.deploymentsIn n)) :
      Run managed (past ++ [push]) s (s'.giveOut push caches order)

variable {s s' : Server} {push : Push} {n : String} {managed : List String}
  {f : String → String}

/-- Plans for a namespace that are carried out one after the other, as they affect one object. -/
def visit (n : String) (plans : List Plan) (o : Object) : Object :=
  plans.foldl (fun o p => o.patched n p) o

theorem carryOut_all (plans : List Plan) (s : Server) :
    plans.foldl (fun s p => s.carryOut n p) s =
      { s with objects := s.objects.map (visit n plans) } := by
  induction plans generalizing s with
  | nil =>
      change s = { s with objects := s.objects.map id }
      rw [List.map_id]
  | cons p rest ih =>
      rw [List.foldl_cons, ih]
      simp [carryOut, visit, Function.comp_def]

/-- Plans for other deployments leave an object alone. -/
theorem visit_eq_self {plans : List Plan} {o : Object}
    (h : ∀ d, o.deploymentIn? n = some d → ∀ p ∈ plans, p.deployment ≠ d.name) :
    visit n plans o = o := by
  induction plans with
  | nil => rfl
  | cons p rest ih =>
      have hpatched : o.patched n p = o := by
        cases o with
        | deployment d =>
            rw [Object.patched, if_neg]
            rintro ⟨hn, hname⟩
            exact h d (if_pos hn) p List.mem_cons_self hname.symm
        | namespaceObject | configMap | job => rfl
      rw [visit, List.foldl_cons, hpatched]
      exact ih fun d hd q hq => h d hd q (List.mem_cons_of_mem _ hq)

theorem visit_append (first later : List Plan) (o : Object) :
    visit n (first ++ later) o = visit n later (visit n first o) :=
  List.foldl_append

theorem plan_cons (d : Deployment) (known : List Deployment) :
    plan push (d :: known) = (planOne push d).toList ++ plan push known := by
  rw [plan, List.filterMap_cons]
  cases planOne push d <;> rfl

/-- The plan of a deployment, if it has one, replaces what the push supersedes. -/
theorem visit_own {d : Deployment} (hd : HasDistinctNames d)
    (hn : (Object.deployment d).namespaceName = n) :
    visit n (planOne push d).toList (.deployment d) =
      .deployment (mapImages (Push.settle [push]) d) := by
  cases hplan : planOne push d with
  | none =>
      rw [mapImages_of_no_plan hplan]
      rfl
  | some p =>
      have hname := deployment_of_plan hplan
      change (Object.deployment d).patched n p = _
      rw [Object.patched, if_pos ⟨hn, hname.symm⟩, apply_of_plan hd hplan]

/-- The plans of other deployments leave a deployment alone. -/
theorem visit_others {known : List Deployment} {d : Deployment}
    (h : d.name ∉ known.map (·.name)) :
    visit n (plan push known) (.deployment d) = .deployment d := by
  refine visit_eq_self fun d' hd' p hp heq => ?_
  obtain ⟨hsame, -⟩ := deploymentIn?_eq_some_iff.1 hd'
  cases hsame
  obtain ⟨k, hk, hplan⟩ := List.mem_filterMap.1 hp
  exact h (List.mem_map.2 ⟨k, hk, (deployment_of_plan hplan).symm.trans heq⟩)

/-- **The plans of a push replace what the push supersedes** in every deployment that is known. -/
theorem visit_plan {known : List Deployment} {d : Deployment}
    (hknown : (known.map (·.name)).Nodup) (hmem : d ∈ known) (hd : HasDistinctNames d)
    (hn : (Object.deployment d).namespaceName = n) :
    visit n (plan push known) (.deployment d) = .deployment (mapImages (Push.settle [push]) d) := by
  induction known with
  | nil => cases hmem
  | cons e rest ih =>
      obtain ⟨hnew, hrest⟩ := List.nodup_cons.1 hknown
      rw [plan_cons, visit_append]
      rcases List.mem_cons.1 hmem with rfl | hmem
      · -- All later plans are for deployments of other names.
        rw [visit_own hd hn]
        exact visit_others (by simpa using hnew)
      · have hfirst : visit n (planOne push e).toList (.deployment d) = .deployment d := by
          have hne : d.name ∉ [e].map (·.name) := by
            intro heq
            have hname : d.name = e.name := by simpa using heq
            exact hnew (List.mem_map.2 ⟨d, hmem, hname⟩)
          have halone : visit n (plan push [e]) (.deployment d) = .deployment d := visit_others hne
          rwa [plan_cons, visit_append] at halone
        rw [hfirst]
        exact ih hrest hmem

/-- **What one controller does.**  It replaces what the push supersedes in its namespace. -/
theorem giveTo_eq (hs : s.IsProper) {known : List Deployment}
    (hknown : known.Perm (s.deploymentsIn n)) :
    s.giveTo push n known = s.mapImagesIn [n] (Push.settle [push]) := by
  have hnames : (known.map (·.name)).Nodup := (hknown.map _).nodup_iff.2 (nodup_names hs n)
  have hobjects : s.objects.map (visit n (plan push known)) =
      s.objects.map (Object.mapImagesIn [n] (Push.settle [push])) := by
    refine List.map_congr_left fun o ho => ?_
    cases o with
    | deployment d =>
        by_cases hn : (Object.deployment d).namespaceName = n
        · have hmem : d ∈ known := hknown.mem_iff.2 (mem_deploymentsIn.2 ⟨ho, hn⟩)
          rw [visit_plan hnames hmem (hs.named d ho) hn, Object.mapImagesIn,
            if_pos (List.mem_singleton.2 hn)]
        · rw [Object.mapImagesIn, if_neg (by simpa using hn)]
          refine visit_eq_self fun d' hd' => ?_
          exact absurd (deploymentIn?_eq_some_iff.1 hd').2 hn
    | namespaceObject | configMap | job =>
        refine visit_eq_self fun d hd => ?_
        cases (deploymentIn?_eq_some_iff.1 hd).1
  rw [giveTo, carryOut_all, hobjects, mapImagesIn]

/-- **What all controllers do**, in whatever order they come. -/
theorem giveOut_eq (hs : s.IsProper) {caches : String → List Deployment} {order : List String}
    (horder : order.Nodup) (hcaches : ∀ n ∈ order, (caches n).Perm (s.deploymentsIn n)) :
    s.giveOut push caches order = s.mapImagesIn order (Push.settle [push]) := by
  induction order using List.reverseRecOn with
  | nil =>
      have hnone : s.objects.map (Object.mapImagesIn [] (Push.settle [push])) = s.objects := by
        refine (List.map_congr_left fun o _ => ?_).trans (List.map_id _)
        cases o <;> simp [Object.mapImagesIn]
      rw [mapImagesIn, hnone]
      rfl
  | append_singleton past n ih =>
      rw [List.nodup_append] at horder
      obtain ⟨hpast, -, hapart⟩ := horder
      have hn : n ∉ past := fun hmem => hapart n hmem n (List.mem_singleton.2 rfl) rfl
      have hknown := hcaches n (List.mem_append_right _ (List.mem_singleton.2 rfl))
      -- What was done in other namespaces does not show in this one's cache.
      rw [← deploymentsIn_mapImagesIn (f := Push.settle [push]) hn] at hknown
      rw [giveOut, List.foldl_append]
      change (s.giveOut push caches past).giveTo push n (caches n) = _
      rw [ih hpast fun k hk => hcaches k (List.mem_append_left _ hk),
        giveTo_eq (isProper_mapImagesIn hs) hknown, mapImagesIn_concat hn]

/-- **What a run does.**  Every image is settled by the pushes of the run. -/
theorem run_eq (hmanaged : managed.Nodup) (hs : s.IsProper) {pushes : List Push}
    (h : Run managed pushes s s') : s' = s.mapImagesIn managed (Push.settle pushes) := by
  -- Settled images leave the server proper, so that each push meets what the lemmas ask for.
  induction h with
  | start => exact mapImagesIn_id.symm
  | @next past push s s' order caches hrun horder hcaches ih =>
      have hrun := ih hs
      have hproper : s'.IsProper := hrun ▸ isProper_mapImagesIn hs
      have hknown : ∀ n ∈ order, (caches n).Perm (s'.deploymentsIn n) := by
        intro n hn
        exact hcaches n (horder.mem_iff.1 hn)
      have hsettle : Push.settle (past ++ [push]) = Push.settle [push] ∘ Push.settle past := by
        funext image
        rw [Push.settle_concat]
        rfl
      rw [giveOut_eq hproper (horder.nodup_iff.2 hmanaged) hknown,
        mapImagesIn_congr fun n => horder.mem_iff, hrun, mapImagesIn_mapImagesIn, hsettle]

/-- Any pushes can be given out. -/
theorem exists_run (managed : List String) (pushes : List Push) (s : Server) :
    ∃ s', Run managed pushes s s' := by
  induction pushes using List.reverseRecOn with
  | nil => exact ⟨s, .start⟩
  | append_singleton past push ih =>
      obtain ⟨s', hrun⟩ := ih
      exact ⟨s'.giveOut push s'.deploymentsIn managed,
        .next hrun (.refl managed) fun _ _ => .refl _⟩

/-- Every push that a body announces is readable. -/
theorem isReadable_of_mem_pushes {body : Body} (h : push ∈ body.pushes) : push.IsReadable := by
  cases body with
  | harbor bytes =>
      rw [Body.pushes, Notification.Harbor.pushes] at h
      split at h
      · obtain ⟨r, -, rfl⟩ := List.mem_map.1 h
        exact Push.isReadable_ofReference r.url
      · cases h
  | gitHub bytes =>
      rw [Body.pushes, Notification.GitHub.push?] at h
      split at h
      next package _ =>
        obtain ⟨p, -, hp⟩ := Option.bind_eq_some_iff.1 (Option.mem_toList.1 h)
        rw [Notification.GitHub.Package.push?] at hp
        split at hp
        · cases hp
          exact Push.isReadable_ofReference p.url
        · cases hp
      next => cases h

/-- A push that supersedes no settled image finds nothing to plan. -/
theorem plan_eq_nil (h : ∀ image, push.supersedes (f image) = false) {known : List Deployment}
    (hn : n ∈ managed) (hknown : known.Perm ((s.mapImagesIn managed f).deploymentsIn n)) :
    plan push known = [] := by
  rw [plan, List.filterMap_eq_nil_iff]
  intro d hd
  obtain ⟨old, rfl⟩ := exists_of_mem_mapImagesIn hn (hknown.mem_iff.1 hd)
  rw [planOne_eq_none_iff]
  intro pod hpod c hc
  rw [podSpec?_mapImages] at hpod
  obtain ⟨oldPod, -, rfl⟩ := Option.map_eq_some_iff.1 hpod
  obtain ⟨oldContainer, -, rfl⟩ := List.mem_map.1 hc
  cases himage : oldContainer.image with
  | none => simp [isOutdated, mapImage, himage]
  | some image => simp [isOutdated, mapImage, himage, h]

/-- **Pushes lead to one state, and it is a state of rest.**  Let any bodies be posted and their
pushes be given out in order, while every patch is carried out and every cache is up to date.  The
cluster comes into one state, in whatever order namespaces and deployments are visited.  There all
is as it was but the images of containers in managed namespaces, and of these each is read under its
old name and under the tag of the last push of that name, if there was one; otherwise it is what it
was, to the letter.  When the last push of a name is given out again, nobody has anything to
patch. -/
theorem converges (hmanaged : managed.Nodup) (hs : s.IsProper) (bodies : List Body) :
    let pushes := bodies.flatMap Body.pushes
    ∃ s', Run managed pushes s s' ∧ (∀ s'', Run managed pushes s s'' → s'' = s') ∧
      s' = s.mapImagesIn managed (Push.settle pushes) ∧
      (∀ image, Push.ofReference (Push.settle pushes image) =
        { image := (Push.ofReference image).image
          tag := (Push.lastTag? pushes (Push.ofReference image).image).getD
            (Push.ofReference image).tag }) ∧
      (∀ image, (∀ p ∈ pushes, p.image ≠ (Push.ofReference image).image) →
        Push.settle pushes image = image) ∧
      (∀ before p after, pushes = before ++ p :: after →
        (∀ q ∈ after, q.image ≠ p.image) →
        ∀ n ∈ managed, ∀ known, known.Perm (s'.deploymentsIn n) → plan p known = []) := by
  intro pushes
  have hreadable : ∀ p ∈ pushes, p.IsReadable := by
    intro p hp
    obtain ⟨body, -, hbody⟩ := List.mem_flatMap.1 hp
    exact isReadable_of_mem_pushes hbody
  obtain ⟨s', hrun⟩ := exists_run managed pushes s
  have heq := run_eq hmanaged hs hrun
  refine ⟨s', hrun, fun s'' hother => ?_, heq, ?_, fun image => Push.settle_eq_self, ?_⟩
  · rw [heq, run_eq hmanaged hs hother]
  · exact Push.ofReference_settle hreadable
  · intro before p after hsplit hlast n hn known hknown
    rw [heq] at hknown
    refine plan_eq_nil (fun image => ?_) hn hknown
    rw [hsplit] at hreadable ⊢
    exact Push.not_supersedes_settle hreadable hlast image

/-- A deployment of one container and an init container. -/
def webOf (n image : String) : Object :=
  .deployment
    { metadata := { name := some "web", namespaceName := some n }
      spec := some
        { template :=
            { spec := some
                { initContainers := some [{ name := "setup", image := some image }]
                  containers := [{ name := "app", image := some image }] } } } }

/-- A cluster with the same deployment in two namespaces. -/
def twoTeams : Server := { objects := [webOf "a" "app:1", webOf "b" "app:1"] }

/-- The body that announces `app:2`. -/
def published : Body :=
  .gitHub ("\x7b\"action\":\"published\",\"package\":\x7b\"package_type\":\"CONTAINER\"," ++
    "\"package_version\":\x7b\"package_url\":\"app:2\"\x7d\x7d\x7d").toUTF8.toList

/-- Of two namespaces only the managed one comes to run what was pushed. -/
theorem converges_in_one_of_two :
    ["a"].Nodup ∧ twoTeams.IsProper ∧ published.pushes = [{ image := "app", tag := "2" }] ∧
    ∃ s', Run ["a"] published.pushes twoTeams s' ∧
      s' = twoTeams.mapImagesIn ["a"] (Push.settle published.pushes) ∧
      Push.settle published.pushes "app:1" = "app:2" := by
  have hproper : twoTeams.IsProper := by
    refine ⟨by decide, fun d hd => ?_⟩
    intro pod hpod
    simp only [twoTeams, webOf, List.mem_cons, Object.deployment.injEq, List.not_mem_nil,
      or_false] at hd
    rcases hd with rfl | rfl
    all_goals
      cases hpod
      simp
  have hpushes : published.pushes = [{ image := "app", tag := "2" }] := by decide +kernel
  obtain ⟨s', hrun, -, heq, -⟩ := converges (List.nodup_singleton "a") hproper [published]
  rw [List.flatMap_singleton] at hrun heq
  refine ⟨List.nodup_singleton "a", hproper, hpushes, s', hrun, heq, ?_⟩
  rw [hpushes]
  decide +kernel

end Server

end ImageRollout.Cluster
