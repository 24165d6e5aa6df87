import ImageRollout.Cluster.Object
import ImageRollout.Proofs.Rollout.ByName
import ImageRollout.Proofs.Rollout.Matching
import ImageRollout.Watch.Cache

/-!
# Patches that come late

A plan is made from what a controller knows of a deployment, and that may be an earlier version of
it.  Until its patch is carried out, users go on editing.  Nothing ties the patch to the version it
was planned from: it goes by the names of the containers that were outdated there.

* `mem_observe`: a cache knows what it was shown.
* `Traffic.isSound_step`, `Traffic.isSound_of_run`: every patch under way was planned from some
  version.
* `Traffic.lands_by_name`: what a patch does when it is carried out.
* `Traffic.overtaken_by_edit`: what it can do to containers that run something else, or are gone.
-/

namespace ImageRollout.Rollout

open Cluster Image Kubernetes Watch

/-- Everything in a cache was there before, or was just shown. -/
theorem mem_observe {α : Type} {name : α → String} {c : Cache α} {e : Event α}
    {entry : String × α}
    (h : entry ∈ (c.observe name e).objects ∨ entry ∈ (c.observe name e).incoming) :
    entry ∈ c.objects ∨ entry ∈ c.incoming ∨ e.object? = some entry.2 := by
  have hinsert (a : α) (t : Table α) (hmem : entry ∈ t.insert (name a) a) :
      entry ∈ t ∨ some a = some entry.2 := by
    rcases List.mem_cons.1 hmem with rfl | hrest
    · exact .inr rfl
    · exact .inl (List.mem_filter.1 hrest).1
  cases e with
  | listing => exact .inl (h.resolve_right List.not_mem_nil)
  | listed a =>
      rcases h with hold | hincoming
      · exact .inl hold
      · exact .inr (hinsert a _ hincoming)
  | listEnd => exact .inr (.inl (h.resolve_right List.not_mem_nil))
  | applied a =>
      rcases h with hnew | hincoming
      · exact (hinsert a _ hnew).imp_right .inr
      · exact .inr (.inl hincoming)
  | deleted a =>
      rcases h with hrest | hincoming
      · exact .inl (List.mem_filter.1 hrest).1
      · exact .inr (.inl hincoming)

/-- A cache lists what it holds under some name. -/
theorem mem_list {α : Type} {c : Cache α} {a : α} :
    a ∈ c.list ↔ ∃ name, (name, a) ∈ c.objects := by
  rw [Cache.list, Text.sortByKey, List.mem_map]
  constructor
  · rintro ⟨entry, hentry, rfl⟩
    exact ⟨entry.1, List.mem_mergeSort.1 hentry⟩
  · rintro ⟨name, hentry⟩
    exact ⟨_, List.mem_mergeSort.2 hentry, rfl⟩

/-- What goes on about one deployment. -/
structure Traffic where
  /-- What users last made of the deployment. -/
  written : Deployment
  /-- The plans that were carried out on it since. -/
  landed : List Plan := []
  /-- What the deployment was before. -/
  past : List Deployment := []
  /-- What the controller knows. -/
  cache : Cache Object := {}
  /-- The plans for the deployment that were not carried out yet, and the pushes behind them. -/
  underway : List (Push × Plan) := []

namespace Traffic

/-- What the deployment is now. -/
def current (t : Traffic) : Deployment := t.landed.foldl (fun d p => p.patch.apply d) t.written

/-- All that the deployment is or was. -/
def versions (t : Traffic) : List Deployment := t.current :: t.past

/-- The deployments as the controller knows them. -/
def known (t : Traffic) : List Deployment := t.cache.list.filterMap Object.deployment?

/-- A user makes something else of the deployment. -/
def edit (d : Deployment) (t : Traffic) : Traffic :=
  { t with written := d, landed := [], past := t.versions }

/-- Something is seen of the deployments. -/
def hear (e : Event Object) (t : Traffic) : Traffic :=
  { t with cache := t.cache.observe Object.name e }

/-- A push comes in, and plans are made for it. -/
def receive (name : String) (push : Push) (t : Traffic) : Traffic :=
  let plans := (plan push t.known).filter (·.deployment = name)
  { t with underway := t.underway ++ plans.map (push, ·) }

/-- The patch of a plan is carried out. -/
def land (p : Plan) (t : Traffic) : Traffic :=
  { t with landed := t.landed ++ [p], past := t.versions }

/-- The object may be shown to the controller: if it is the deployment of the name, then in one of
its versions. -/
def MayShow (name : String) (t : Traffic) (o : Object) : Prop :=
  ∀ d, o = .deployment d → d.name = name → d ∈ t.versions

/-- What can happen about the deployment of a name.  The controller is shown any version of it, and
the API server carries a patch out at any time, or never. -/
inductive Step (name : String) (t : Traffic) : Traffic → Prop
  | edit {d : Deployment} (hname : d.name = name) : Step name t (t.edit d)
  | hear {e : Event Object} (hshown : ∀ o, e.object? = some o → t.MayShow name o) :
      Step name t (t.hear e)
  | receive (push : Push) : Step name t (t.receive name push)
  | land {before after : List (Push × Plan)} {push : Push} {p : Plan}
      (hunderway : t.underway = before ++ (push, p) :: after) :
      Step name t { t.land p with underway := before ++ after }
  | lose {before after : List (Push × Plan)} {push : Push} {p : Plan}
      (hunderway : t.underway = before ++ (push, p) :: after) :
      Step name t { t with underway := before ++ after }

/-- All that the traffic about the deployment of a name can come to. -/
inductive Run (name : String) : Traffic → Prop
  | start {d : Deployment} (hname : d.name = name) : Run name { written := d }
  | next {t t' : Traffic} (h : Run name t) (hstep : Step name t t') : Run name t'

/-- The controller knows versions of the deployment, and what is under way was planned from one. -/
structure IsSound (name : String) (t : Traffic) : Prop where
  cached : ∀ entry : String × Object,
    entry ∈ t.cache.objects ∨ entry ∈ t.cache.incoming → t.MayShow name entry.2
  planned : ∀ sent ∈ t.underway, ∃ seen ∈ t.versions, seen.name = name ∧
    planOne sent.1 seen = some sent.2

/-- What one plan does, made from a version that was seen and carried out on the current one. -/
structure Landing (t : Traffic) (seen : Deployment) (push : Push) (p : Plan) : Prop where
  /-- It lists the containers that were outdated. -/
  lists : p.changes = (outdatedContainers push seen).map fun c => (c.name, push.text)
  /-- It goes by their names alone. -/
  merges : MergesByName p.changes t.current (p.patch.apply t.current)
  /-- All else is what the users made of it, but for what was carried out since. -/
  keeps : MergesByName ((t.landed ++ [p]).flatMap (·.changes)) t.written (p.patch.apply t.current)
  /-- Every name that is listed has the pushed image then. -/
  moves : ∀ change ∈ p.changes, ∃ c ∈ Listing.containers.of (p.patch.apply t.current),
    c.name = change.1 ∧ c.image = some push.text
  /-- It is modest where the names still mean what they should. -/
  modest : (∀ change ∈ p.changes,
      change.1 ∈ (Listing.containers.of t.current).map (·.name)) →
    (∀ c ∈ Listing.containers.of t.current, c.name ∈ p.changes.map (·.1) →
      c.image.any push.sameImage = true) →
    IsModest push t.current (p.patch.apply t.current)
  /-- So it is where the containers are still the same, and no two bear one name. -/
  upToDate : Listing.containers.of seen = Listing.containers.of t.current →
    HasDistinctNames t.current → IsModest push t.current (p.patch.apply t.current)

variable {name : String} {t t' : Traffic} {push : Push} {p : Plan}

/-- No version is ever forgotten. -/
theorem mem_versions_step (h : Step name t t') {d : Deployment} (hd : d ∈ t.versions) :
    d ∈ t'.versions := by
  cases h with
  | edit | land => exact List.mem_cons_of_mem _ hd
  | hear | receive | lose => exact hd

/-- The controller knows a deployment only from the cache. -/
theorem mem_known {d : Deployment} (h : d ∈ t.known) :
    ∃ entry ∈ t.cache.objects, entry.2 = .deployment d := by
  obtain ⟨o, ho, hd⟩ := List.mem_filterMap.1 h
  obtain ⟨key, hentry⟩ := mem_list.1 ho
  refine ⟨_, hentry, ?_⟩
  cases o with
  | deployment d' => exact congrArg _ (Option.some.inj hd)
  | namespaceObject | configMap | job => cases hd

/-- What may be shown once may be shown ever after. -/
theorem mayShow_step (h : Step name t t') {o : Object} (ho : t.MayShow name o) :
    t'.MayShow name o :=
  fun d hd hname => mem_versions_step h (ho d hd hname)

/-- **What is true of the knowledge and of the plans stays true**, whatever happens. -/
theorem isSound_step (hsound : IsSound name t) (h : Step name t t') : IsSound name t' := by
  -- Most steps leave the cache or the plans as they were, while versions only become more.
  have hcached : ∀ entry : String × Object,
      entry ∈ t.cache.objects ∨ entry ∈ t.cache.incoming → t'.MayShow name entry.2 :=
    fun entry hentry => mayShow_step h (hsound.cached entry hentry)
  have hplanned : ∀ sent ∈ t.underway, ∃ seen ∈ t'.versions, seen.name = name ∧
      planOne sent.1 seen = some sent.2 := by
    intro sent hsent
    obtain ⟨seen, hseen, hplan⟩ := hsound.planned sent hsent
    exact ⟨seen, mem_versions_step h hseen, hplan⟩
  have hleft {before after : List (Push × Plan)} {gone : Push × Plan}
      (hunderway : t.underway = before ++ gone :: after) :
      ∀ sent ∈ before ++ after, ∃ seen ∈ t'.versions, seen.name = name ∧
        planOne sent.1 seen = some sent.2 := by
    intro sent hsent
    refine hplanned sent ?_
    rw [hunderway]
    exact ((List.sublist_cons_self gone after).append_left before).subset hsent
  cases h with
  | edit => exact ⟨hcached, hplanned⟩
  | hear hshown =>
      refine ⟨fun entry hentry => ?_, hplanned⟩
      rcases mem_observe hentry with hold | hold | hnew
      · exact hcached entry (.inl hold)
      · exact hcached entry (.inr hold)
      · exact hshown entry.2 hnew
  | receive push =>
      refine ⟨hcached, fun sent hsent => ?_⟩
      rcases List.mem_append.1 hsent with hold | hnew
      · exact hplanned sent hold
      · obtain ⟨p, hp, rfl⟩ := List.mem_map.1 hnew
        obtain ⟨hmem, hown⟩ := List.mem_filter.1 hp
        obtain ⟨seen, hseen, hplan⟩ := List.mem_filterMap.1 hmem
        obtain ⟨entry, hentry, hd⟩ := mem_known hseen
        have hname : seen.name = name := by
          rw [← deployment_of_plan hplan]
          exact of_decide_eq_true hown
        exact ⟨seen, hsound.cached entry (.inl hentry) seen hd hname, hname, hplan⟩
  | land hunderway | lose hunderway => exact ⟨hcached, hleft hunderway⟩

/-- Whatever happens, plans are made from versions that there were. -/
theorem isSound_of_run (h : Run name t) : IsSound name t := by
  induction h with
  | start => exact ⟨fun _ hentry => by simp at hentry, by simp⟩
  | next _ hstep ih => exact isSound_step ih hstep

/-- **What a plan does**, whatever the deployment has become. -/
theorem landing_of_plan {seen : Deployment} (t : Traffic) (h : planOne push seen = some p) :
    Landing t seen push p := by
  obtain ⟨hne, hlists⟩ := changes_of_plan h
  have hmerges : MergesByName p.changes t.current (p.patch.apply t.current) :=
    mergesByName_apply p.changes t.current
  have hmodest (hthere : ∀ change ∈ p.changes,
        change.1 ∈ (Listing.containers.of t.current).map (·.name))
      (hruns : ∀ c ∈ Listing.containers.of t.current, c.name ∈ p.changes.map (·.1) →
        c.image.any push.sameImage = true) :
      IsModest push t.current (p.patch.apply t.current) :=
    isModest_of_merges hne hthere hruns hmerges
  refine ⟨hlists, hmerges, ?_, fun change hchange => ?_, hmodest, fun hsame hdistinct => ?_⟩
  · have hall := apply_foldl t.landed p t.written
    rw [List.foldl_append] at hall
    have hcurrent : p.patch.apply t.current =
        (Patch.images ((t.landed ++ [p]).flatMap (·.changes))).apply t.written := hall
    rw [hcurrent]
    exact mergesByName_apply _ _
  · have htext : ∀ change ∈ p.changes, change.2 = push.text := by
      rw [hlists]
      intro change hchange
      obtain ⟨c, -, rfl⟩ := List.mem_map.1 hchange
      rfl
    rw [Plan.patch, apply_images, of_putContainers]
    exact exists_moved htext hchange _
  · rw [hlists, outdatedContainers, hsame] at hmodest
    refine hmodest (fun change hchange => ?_) fun c hc hname => ?_
    · obtain ⟨c, hc, rfl⟩ := List.mem_map.1 hchange
      exact List.mem_map_of_mem (List.mem_filter.1 hc).1
    · -- Of the container's name there is only the one that was outdated.
      obtain ⟨change, hchange, heq⟩ := List.mem_map.1 hname
      obtain ⟨k, hk, rfl⟩ := List.mem_map.1 hchange
      obtain ⟨hmem, houtdated⟩ := List.mem_filter.1 hk
      obtain rfl : k = c := List.inj_on_of_nodup_map (nodup_containers hdistinct) hmem hc heq
      rw [isOutdated, Option.any_eq_true] at houtdated
      obtain ⟨image, himage, hsupersedes⟩ := houtdated
      exact Option.any_eq_true _ _ |>.2 ⟨image, himage, (Bool.and_eq_true_iff.1 hsupersedes).1⟩

/-- **Patches go by the names of an earlier version.**  Let users edit a deployment, let the
controller be shown any of its versions, and let pushes come in and patches be carried out in any
order.  Each patch under way was planned from some version of the deployment, and if it is carried
out, it does to the current one what the names of that version tell it to. -/
theorem lands_by_name (h : Run name t) (hunderway : (push, p) ∈ t.underway) :
    p.deployment = name ∧
      ∃ seen ∈ t.versions, seen.name = name ∧ Landing t seen push p := by
  obtain ⟨seen, hseen, hname, hplan⟩ := (isSound_of_run h).planned _ hunderway
  exact ⟨(deployment_of_plan hplan).trans hname, seen, hseen, hname, landing_of_plan t hplan⟩

/-- Two containers that run one image. -/
def web : Deployment := running [("app", "team/app:1"), ("side", "team/app:1")]

/-- Another tag of their image. -/
def newTag : Push := { image := "team/app", tag := "2" }

/-- The plan that moves both to it. -/
def moveBoth : Plan :=
  { deployment := "web", changes := [("app", "team/app:2"), ("side", "team/app:2")] }

/-- The deployment was seen, and the tag was pushed. -/
def planned : Traffic :=
  (({ written := web } : Traffic).hear (.applied (.deployment web))).receive "web" newTag

/-- The example's plan can be made. -/
theorem run_planned : Run "web" planned := by
  refine .next (.next (.start rfl) (.hear ?_)) (.receive newTag)
  rintro _ ⟨⟩ d hd -
  cases hd
  exact List.mem_cons_self

theorem underway_planned : planned.underway = [(newTag, moveBoth)] := by
  have hknown :
      (({ written := web } : Traffic).hear (.applied (.deployment web))).known = [web] := by
    simp [known, hear, Cache.observe, Cache.list, Text.sortByKey, Table.insert, Table.erase,
      Object.deployment?]
  have hplan : plan newTag [web] = [moveBoth] := by decide
  rw [planned, receive, hknown, hplan]
  decide

/-- If the patch is carried out at once, it changes the images that it should, and nothing else. -/
theorem planned_in_time :
    Run "web" planned ∧ (newTag, moveBoth) ∈ planned.underway ∧
      IsModest newTag planned.current (moveBoth.patch.apply planned.current) := by
  have hunderway : (newTag, moveBoth) ∈ planned.underway := by
    rw [underway_planned]
    exact List.mem_singleton.2 rfl
  obtain ⟨-, seen, -, -, hlanding⟩ := lands_by_name run_planned hunderway
  exact ⟨run_planned, hunderway, hlanding.modest (by decide) (by decide)⟩

/-- Before the patch is carried out, a user removes one of the containers and has the other one run
something else. -/
def overtaken : Traffic := planned.edit (running [("side", "other:1")])

/-- If the patch is carried out then, it adds the one container again and has the other one run the
pushed image. -/
theorem overtaken_by_edit :
    let images (d : Deployment) := (Listing.containers.of d).map fun c => (c.name, c.image)
    let after := moveBoth.patch.apply overtaken.current
    Run "web" overtaken ∧ (newTag, moveBoth) ∈ overtaken.underway ∧
      images overtaken.current = [("side", some "other:1")] ∧
      images after = [("side", some "team/app:2"), ("app", some "team/app:2")] ∧
      ¬ IsModest newTag overtaken.current after := by
  refine ⟨run_planned.next (.edit rfl), ?_, by decide, by decide, ?_⟩
  · change (newTag, moveBoth) ∈ planned.underway
    rw [underway_planned]
    exact List.mem_singleton.2 rfl
  · rintro ⟨cs, hcs, hafter⟩
    have hlength := congrArg (fun d => (Listing.containers.of d).length) hafter
    have hone : cs.length = 1 := hcs.length_eq.symm
    have htwo : cs.length = 2 := hlength.symm
    omega

end Traffic

end ImageRollout.Rollout
