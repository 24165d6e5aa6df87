import ImageRollout.Proofs.Rollout.ByName
import ImageRollout.Proofs.Rollout.Documents
import ImageRollout.Proofs.Rollout.Matching

/-!
# Writes to one deployment

Two components write to a deployment: one gives containers the images that were pushed, and the
other restarts the pods.  They know nothing of each other, so their patches arrive in any order, and
some arrive again.  What was planned for pushes of different images goes to different containers,
and a restart goes to an annotation, so it does not matter.

* `Commuting.foldl_eq`: actions that commute and may be repeated.
* `setImages_eq_map`, `apply_of_fits`: what a patch of images leaves alone.
* `apply_restart`: what a restart leaves alone.
* `commuting_writes`, `IsStored.merge`: the writes to a deployment, and to its document.
* `writes_commute`: what comes of the writes in any order.
-/

namespace ImageRollout.Rollout

open Image Json Kubernetes

section Actions

variable {α ι : Type} {Holds : α → Prop} {May : ι → Prop} {act : α → ι → α}

/-- Actions that may be done in any order and more than once, as long as something holds that none
of them changes. -/
structure Commuting (Holds : α → Prop) (May : ι → Prop) (act : α → ι → α) : Prop where
  holds : ∀ p, May p → ∀ a, Holds a → Holds (act a p)
  comm : ∀ p q, May p → May q → ∀ a, Holds a → act (act a p) q = act (act a q) p
  again : ∀ p, May p → ∀ a, Holds a → act (act a p) p = act a p

namespace Commuting

variable {p : ι} {ps qs : List ι} {a : α}

/-- What holds before actions holds after them. -/
theorem foldl_holds (h : Commuting Holds May act) (ha : Holds a) (hps : ∀ p ∈ ps, May p) :
    Holds (ps.foldl act a) := by
  induction ps generalizing a with
  | nil => exact ha
  | cons p rest ih =>
      obtain ⟨hp, hrest⟩ := List.forall_mem_cons.1 hps
      exact ih (h.holds p hp a ha) hrest

/-- An action may be done before others or after them. -/
theorem foldl_act (h : Commuting Holds May act) (ha : Holds a) (hp : May p)
    (hps : ∀ p ∈ ps, May p) : ps.foldl act (act a p) = act (ps.foldl act a) p := by
  induction ps generalizing a with
  | nil => rfl
  | cons q rest ih =>
      obtain ⟨hq, hrest⟩ := List.forall_mem_cons.1 hps
      rw [List.foldl_cons, List.foldl_cons, h.comm p q hp hq a ha, ih (h.holds q hq a ha) hrest]

/-- An action that was done need not be done again. -/
theorem act_foldl (h : Commuting Holds May act) (ha : Holds a) (hps : ∀ p ∈ ps, May p)
    (hmem : p ∈ ps) : act (ps.foldl act a) p = ps.foldl act a := by
  induction ps generalizing a with
  | nil => cases hmem
  | cons q rest ih =>
      obtain ⟨hq, hrest⟩ := List.forall_mem_cons.1 hps
      have hafter := h.holds q hq a ha
      rw [List.foldl_cons]
      rcases List.mem_cons.1 hmem with rfl | hmem
      · rw [← h.foldl_act hafter hq hrest, h.again p hq a ha]
      · exact ih hafter hrest hmem

/-- Actions that have been done already may be done again, and nothing comes of it. -/
theorem foldl_foldl_of_subset (h : Commuting Holds May act) (ha : Holds a)
    (hps : ∀ p ∈ ps, May p) (hqs : qs ⊆ ps) :
    qs.foldl act (ps.foldl act a) = ps.foldl act a := by
  induction qs with
  | nil => rfl
  | cons q rest ih =>
      rw [List.foldl_cons, h.act_foldl ha hps (hqs List.mem_cons_self)]
      exact ih fun p hp => hqs (List.mem_cons_of_mem _ hp)

/-- Two series of actions may be done in either order. -/
theorem foldl_foldl_comm (h : Commuting Holds May act) (ha : Holds a) (hps : ∀ p ∈ ps, May p)
    (hqs : ∀ q ∈ qs, May q) :
    qs.foldl act (ps.foldl act a) = ps.foldl act (qs.foldl act a) := by
  induction qs generalizing a with
  | nil => rfl
  | cons q rest ih =>
      obtain ⟨hq, hrest⟩ := List.forall_mem_cons.1 hqs
      rw [List.foldl_cons, List.foldl_cons, ← h.foldl_act ha hq hps,
        ih (h.holds q hq a ha) hrest]

/-- **Only which actions are done matters**, neither their order nor how often. -/
theorem foldl_eq (h : Commuting Holds May act) (ha : Holds a) (hps : ∀ p ∈ ps, May p)
    (hmem : ∀ p, p ∈ ps ↔ p ∈ qs) : ps.foldl act a = qs.foldl act a := by
  have hqs : ∀ q ∈ qs, May q := fun q hq => hps q ((hmem q).2 hq)
  -- Either list may follow the other without doing anything, and the two may change places.
  calc ps.foldl act a = qs.foldl act (ps.foldl act a) :=
        (h.foldl_foldl_of_subset ha hps fun q hq => (hmem q).2 hq).symm
    _ = ps.foldl act (qs.foldl act a) := h.foldl_foldl_comm ha hps hqs
    _ = qs.foldl act a := h.foldl_foldl_of_subset ha hqs fun p hp => (hmem p).1 hp

end Commuting

end Actions

section Images

variable {changes others : List (String × String)} {cs : List Container} {d : Deployment}

/-- A container with the image that is meant for its name, if there is one. -/
def withImages (changes : List (String × String)) (c : Container) : Container :=
  { c with image := (changes.lookup c.name).or c.image }

/-- A deployment with the images that are meant for its containers, and all else as it was. -/
def giveImages (changes : List (String × String)) (d : Deployment) : Deployment :=
  mapPodSpec (fun pod => { pod with containers := pod.containers.map (withImages changes) }) d

/-- The names of a deployment's containers, if it has a pod specification. -/
def containerNames? (d : Deployment) : Option (List String) :=
  d.podSpec?.map fun pod => pod.containers.map (·.name)

/-- Images for containers that are there, and one for each at most. -/
structure Fits (changes : List (String × String)) (names : List String) : Prop where
  distinct : (changes.map (·.1)).Nodup
  there : ∀ change ∈ changes, change.1 ∈ names

@[simp] theorem name_withImages (c : Container) : (withImages changes c).name = c.name := rfl

/-- To give images a second time changes nothing. -/
@[simp] theorem withImages_withImages (c : Container) :
    withImages changes (withImages changes c) = withImages changes c := by
  cases hlookup : changes.lookup c.name <;> simp [withImages, hlookup]

theorem lookup_of_notMem {name : String} (h : name ∉ changes.map (·.1)) :
    changes.lookup name = none := by
  rw [List.lookup_eq_none_iff]
  intro change hchange
  simp only [bne_iff_ne, ne_eq]
  exact fun heq => h (heq ▸ List.mem_map_of_mem hchange)

/-- A container for which no image is meant stays as it is. -/
theorem withImages_of_notMem {c : Container} (h : c.name ∉ changes.map (·.1)) :
    withImages changes c = c := by
  rw [withImages, lookup_of_notMem h, Option.none_or]

/-- Images for different containers may be given in any order. -/
theorem withImages_comm (h : ∀ name ∈ changes.map (·.1), name ∉ others.map (·.1))
    (c : Container) :
    withImages changes (withImages others c) = withImages others (withImages changes c) := by
  by_cases hmem : c.name ∈ changes.map (·.1)
  · have hother : c.name ∉ others.map (·.1) := h c.name hmem
    rw [withImages_of_notMem hother, withImages_of_notMem (c := withImages changes c) hother]
  · rw [withImages_of_notMem hmem, withImages_of_notMem (c := withImages others c) hmem]

/-- Images may be given one after the other. -/
theorem withImages_cons {change : String × String} (h : change.1 ∉ changes.map (·.1))
    (c : Container) :
    withImages changes (withImages [change] c) = withImages (change :: changes) c := by
  obtain ⟨name, image⟩ := change
  by_cases hname : c.name = name
  · have hnone : changes.lookup name = none := lookup_of_notMem h
    simp [withImages, hname, hnone]
  · simp [withImages, Table.lookup_cons, hname]

/-- An image for a container that is there. -/
theorem setImage_eq_map {change : String × String} (hcs : (cs.map (·.name)).Nodup)
    (h : change.1 ∈ cs.map (·.name)) : setImage change cs = cs.map (withImages [change]) := by
  induction cs with
  | nil => cases h
  | cons c rest ih =>
      obtain ⟨hfresh, hrest⟩ := List.nodup_cons.1 hcs
      rw [setImage, List.map_cons]
      by_cases hname : c.name = change.1
      · have hothers : rest.map (withImages [change]) = rest := by
          refine (List.map_congr_left fun c' hc' => withImages_of_notMem fun hmem => ?_).trans
            (List.map_id _)
          have heq : c'.name = c.name := (List.mem_singleton.1 hmem).trans hname.symm
          exact hfresh (List.mem_map.2 ⟨c', hc', heq⟩)
        have hlookup : [change].lookup c.name = some change.2 := by
          rw [hname]
          exact List.lookup_cons_self
        rw [if_pos hname, hothers, withImages, hlookup, Option.some_or]
      · have hother : withImages [change] c = c :=
          withImages_of_notMem fun hmem => hname (List.mem_singleton.1 hmem)
        have hmem : change.1 ∈ rest.map (·.name) :=
          (List.mem_cons.1 h).resolve_left (Ne.symm hname)
        rw [if_neg hname, ih hrest hmem, hother]

/-- **One image after the other, by name**: where every name is there, no container is added. -/
theorem setImages_eq_map (hcs : (cs.map (·.name)).Nodup) (h : Fits changes (cs.map (·.name))) :
    setImages changes cs = cs.map (withImages changes) := by
  induction changes generalizing cs with
  | nil => exact (List.map_id cs).symm
  | cons change rest ih =>
      obtain ⟨hfresh, hdistinct⟩ := List.nodup_cons.1 h.distinct
      obtain ⟨hthere, hrest⟩ := List.forall_mem_cons.1 h.there
      have hnames : (cs.map (withImages [change])).map (·.name) = cs.map (·.name) := by
        rw [List.map_map]
        exact List.map_congr_left fun c _ => name_withImages c
      change setImages rest (setImage change cs) = _
      rw [setImage_eq_map hcs hthere, ih (hnames ▸ hcs) (hnames ▸ ⟨hdistinct, hrest⟩),
        List.map_map]
      exact List.map_congr_left fun c _ => withImages_cons hfresh c

/-- Only what becomes of the pod specification that there is matters. -/
theorem mapPodSpec_congr {f g : PodSpec → PodSpec}
    (h : ∀ pod, d.podSpec? = some pod → f pod = g pod) : mapPodSpec f d = mapPodSpec g d := by
  obtain ⟨metadata, spec, status⟩ := d
  cases spec with
  | none => rfl
  | some s =>
      obtain ⟨⟨templateMetadata, podSpec⟩, others⟩ := s
      cases podSpec with
      | none => rfl
      | some pod => simp [mapPodSpec, h pod rfl]

/-- Two changes of a pod specification are one change. -/
theorem mapPodSpec_mapPodSpec (f g : PodSpec → PodSpec) (d : Deployment) :
    mapPodSpec f (mapPodSpec g d) = mapPodSpec (f ∘ g) d := by
  simp [mapPodSpec, Function.comp_def]

/-- Giving images changes no name. -/
theorem containerNames?_giveImages :
    containerNames? (giveImages changes d) = containerNames? d := by
  rw [containerNames?, giveImages, podSpec?_mapPodSpec, Option.map_map, containerNames?]
  simp [Function.comp_def]

/-- To give a deployment images a second time changes nothing. -/
theorem giveImages_giveImages :
    giveImages changes (giveImages changes d) = giveImages changes d := by
  rw [giveImages, giveImages, mapPodSpec_mapPodSpec]
  simp [Function.comp_def]

/-- Images for different containers may be given in either order. -/
theorem giveImages_comm (h : ∀ name ∈ changes.map (·.1), name ∉ others.map (·.1)) :
    giveImages changes (giveImages others d) = giveImages others (giveImages changes d) := by
  rw [giveImages, giveImages, mapPodSpec_mapPodSpec, giveImages, giveImages, mapPodSpec_mapPodSpec]
  simp [Function.comp_def, withImages_comm h]

/-- **What a patch of images leaves alone**: all but the images of the containers that it names. -/
theorem apply_of_fits {names : List String} (hnames : containerNames? d = some names)
    (hnodup : names.Nodup) (h : Fits changes names) :
    (Patch.images changes).apply d = giveImages changes d := by
  obtain ⟨pod, hpod, rfl⟩ := Option.map_eq_some_iff.1 hnames
  have hlist : Listing.containers.of d = pod.containers := by simp [Listing.of, hpod]
  rw [apply_images, hlist, setImages_eq_map hnodup h, putContainers_eq_mapPodSpec (by simp [hpod])]
  refine mapPodSpec_congr fun pod' hpod' => ?_
  rw [Option.some.inj (hpod'.symm.trans hpod)]

end Images

section Restarts

variable {d : Deployment} {time : Time.Instant}

/-- The annotations of a deployment's pod template. -/
def templateAnnotations (d : Deployment) : TextMap :=
  ((d.spec.bind (·.template.metadata)).bind (·.annotations)).getD []

/-- A deployment with these annotations of its pod template, with what is needed to hold them, and
with all else as it was. -/
def putAnnotations (annotations : TextMap) (d : Deployment) : Deployment :=
  let s := d.spec.getD {}
  let m := s.template.metadata.getD {}
  { d with
    spec := some { s with
      template := { s.template with
        metadata := some { m with annotations := some annotations } } } }

/-- What was set under a key is found there. -/
theorem lookup_setText (key value : String) (m : TextMap) :
    (setText key value m).lookup key = some value := by
  induction m with
  | nil => exact List.lookup_cons_self
  | cons e rest ih =>
      obtain ⟨k, v⟩ := e
      rw [setText]
      by_cases hk : k = key
      · rw [if_pos hk, Table.lookup_cons, if_pos hk.symm]
      · rw [if_neg hk, Table.lookup_cons, if_neg (Ne.symm hk), ih]

/-- To set a text leaves the entries of other keys alone. -/
theorem without_setText (key value : String) (m : TextMap) :
    (setText key value m).without key = m.without key := by
  induction m with
  | nil => simp [setText, TextMap.without]
  | cons e rest ih =>
      obtain ⟨k, v⟩ := e
      rw [setText]
      by_cases hk : k = key
      · simp [hk, TextMap.without]
      · simp only [TextMap.without] at ih
        rw [if_neg hk, TextMap.without, TextMap.without, List.filter_cons, List.filter_cons, ih]

/-- To set a text a second time changes nothing. -/
theorem setText_setText (key value : String) (m : TextMap) :
    setText key value (setText key value m) = setText key value m := by
  induction m with
  | nil => simp [setText]
  | cons e rest ih =>
      obtain ⟨k, v⟩ := e
      rw [setText]
      by_cases hk : k = key
      · simp [hk, setText]
      · simp [hk, setText, ih]

/-- **What a restart leaves alone**: all but one annotation of the pod template. -/
theorem apply_restart (time : Time.Instant) (d : Deployment) :
    (Patch.restart time).apply d =
      putAnnotations (setText restartKey time.text (templateAnnotations d)) d := by
  obtain ⟨metadata, spec, status⟩ := d
  cases spec with
  | none => rfl
  | some s =>
      obtain ⟨⟨templateMetadata, podSpec⟩, others⟩ := s
      cases templateMetadata <;> rfl

theorem templateAnnotations_putAnnotations (annotations : TextMap) :
    templateAnnotations (putAnnotations annotations d) = annotations := rfl

/-- The annotations put last count. -/
theorem putAnnotations_putAnnotations (first later : TextMap) :
    putAnnotations later (putAnnotations first d) = putAnnotations later d := rfl

/-- A restart changes no container's name. -/
theorem containerNames?_restart :
    containerNames? ((Patch.restart time).apply d) = containerNames? d := by
  obtain ⟨metadata, spec, status⟩ := d
  cases spec <;> rfl

/-- To restart a second time at the same moment changes nothing. -/
theorem restart_restart :
    (Patch.restart time).apply ((Patch.restart time).apply d) = (Patch.restart time).apply d := by
  rw [apply_restart, apply_restart, templateAnnotations_putAnnotations,
    putAnnotations_putAnnotations, setText_setText]

/-- A restart and images may come in any order. -/
theorem restart_giveImages (changes : List (String × String)) :
    (Patch.restart time).apply (giveImages changes d) =
      giveImages changes ((Patch.restart time).apply d) := by
  obtain ⟨metadata, spec, status⟩ := d
  cases spec <;> rfl

end Restarts

section Writes

variable {d e : Deployment} {pushes : List Push} {time : Time.Instant} {p q : Patch}

/-- What is written to a deployment: a restart, and the patches that were planned for pushes. -/
inductive IsWrite (d : Deployment) (pushes : List Push) (time : Time.Instant) : Patch → Prop
  | restart : IsWrite d pushes time (.restart time)
  | images {push : Push} {p : Plan} (hpush : push ∈ pushes) (hplan : planOne push d = some p) :
      IsWrite d pushes time p.patch

/-- A plan has images for outdated containers. -/
theorem exists_outdated {push : Push} {p : Plan} (h : planOne push d = some p) {name : String}
    (hname : name ∈ p.changes.map (·.1)) :
    ∃ c ∈ Listing.containers.of d, c.name = name ∧ isOutdated push c = true := by
  rw [(changes_of_plan h).2, List.map_map] at hname
  obtain ⟨c, hc, heq⟩ := List.mem_map.1 hname
  obtain ⟨hmem, houtdated⟩ := List.mem_filter.1 hc
  exact ⟨c, hmem, heq, houtdated⟩

/-- A plan has images for containers that are there, and one for each at most. -/
theorem fits_of_plan (hd : HasDistinctNames d) {push : Push} {p : Plan}
    (h : planOne push d = some p) :
    ∃ names, containerNames? d = some names ∧ names.Nodup ∧ Fits p.changes names := by
  obtain ⟨hne, hchanges⟩ := changes_of_plan h
  have hnodup := nodup_containers hd
  have hnames : containerNames? d = some ((Listing.containers.of d).map (·.name)) := by
    cases hpod : d.podSpec? with
    | none => simp [hchanges, outdatedContainers, Listing.of, hpod] at hne
    | some pod => simp [containerNames?, Listing.of, hpod]
  refine ⟨_, hnames, hnodup, ⟨?_, fun change hchange => ?_⟩⟩
  · rw [hchanges, List.map_map]
    exact hnodup.sublist (List.filter_sublist.map _)
  · obtain ⟨c, hc, heq, -⟩ := exists_outdated h (List.mem_map_of_mem hchange)
    exact List.mem_map.2 ⟨c, hc, heq⟩

/-- An outdated container runs the pushed image. -/
theorem exists_image_of_isOutdated {push : Push} {c : Container}
    (h : isOutdated push c = true) :
    ∃ image, c.image = some image ∧ (Push.ofReference image).image = push.image := by
  rw [isOutdated] at h
  cases himage : c.image with
  | none => simp [himage] at h
  | some image =>
      rw [himage, Option.any_some, Push.supersedes, Bool.and_eq_true] at h
      exact ⟨image, rfl, of_decide_eq_true h.1⟩

/-- A container runs one image, so it is not outdated for pushes of different images. -/
theorem notMem_of_plan (hd : HasDistinctNames d) {push push' : Push}
    (himage : push.image ≠ push'.image) {p p' : Plan} (h : planOne push d = some p)
    (h' : planOne push' d = some p') :
    ∀ name ∈ p.changes.map (·.1), name ∉ p'.changes.map (·.1) := by
  intro name hname hname'
  obtain ⟨c, hc, heq, houtdated⟩ := exists_outdated h hname
  obtain ⟨c', hc', heq', houtdated'⟩ := exists_outdated h' hname'
  obtain rfl : c = c' :=
    List.inj_on_of_nodup_map (nodup_containers hd) hc hc' (heq.trans heq'.symm)
  obtain ⟨image, hruns, hpushed⟩ := exists_image_of_isOutdated houtdated
  obtain ⟨image', hruns', hpushed'⟩ := exists_image_of_isOutdated houtdated'
  obtain rfl : image = image' := Option.some.inj (hruns.symm.trans hruns')
  exact himage (hpushed.symm.trans hpushed')

/-- The containers are those of the planned deployment, by their names. -/
def HasNamesOf (d e : Deployment) : Prop := containerNames? e = containerNames? d

/-- A planned patch gives images, as long as the containers are those it was planned for. -/
theorem apply_of_namesOf (hd : HasDistinctNames d) (he : HasNamesOf d e) {push : Push} {p : Plan}
    (h : planOne push d = some p) : p.patch.apply e = giveImages p.changes e := by
  obtain ⟨names, hnames, hnodup, hfits⟩ := fits_of_plan hd h
  exact apply_of_fits (he.trans hnames) hnodup hfits

/-- Writes change no container's name. -/
theorem hasNamesOf_apply (hd : HasDistinctNames d) (he : HasNamesOf d e)
    (hp : IsWrite d pushes time p) : HasNamesOf d (p.apply e) := by
  cases hp with
  | restart => exact containerNames?_restart.trans he
  | images hpush hplan =>
      rw [apply_of_namesOf hd he hplan]
      exact containerNames?_giveImages.trans he

/-- **The writes to a deployment commute**, and each is done once and for all. -/
theorem commuting_writes (hd : HasDistinctNames d) (hpushes : (pushes.map (·.image)).Nodup)
    (time : Time.Instant) :
    Commuting (HasNamesOf d) (IsWrite d pushes time) fun e p => p.apply e where
  holds _ hp _ he := hasNamesOf_apply hd he hp
  comm p q hp hq e he := by
    have hp' := hasNamesOf_apply hd he hp
    have hq' := hasNamesOf_apply hd he hq
    cases hp with
    | restart =>
        cases hq with
        | restart => rfl
        | images hpush hplan =>
            rw [apply_of_namesOf hd hp' hplan, apply_of_namesOf hd he hplan, restart_giveImages]
    | @images push plan hpush hplan =>
        cases hq with
        | restart =>
            rw [apply_of_namesOf hd hq' hplan, apply_of_namesOf hd he hplan, restart_giveImages]
        | @images push' plan' hpush' hplan' =>
            by_cases himage : push.image = push'.image
            · -- One push has one plan.
              obtain rfl : push = push' := List.inj_on_of_nodup_map hpushes hpush hpush' himage
              obtain rfl : plan = plan' := Option.some.inj (hplan.symm.trans hplan')
              rfl
            · rw [apply_of_namesOf hd hp' hplan', apply_of_namesOf hd he hplan,
                apply_of_namesOf hd hq' hplan, apply_of_namesOf hd he hplan',
                giveImages_comm (notMem_of_plan hd himage hplan hplan')]
  again p hp e he := by
    have hp' := hasNamesOf_apply hd he hp
    cases hp with
    | restart => exact restart_restart
    | images hpush hplan =>
        rw [apply_of_namesOf hd hp' hplan, apply_of_namesOf hd he hplan, giveImages_giveImages]

/-- What a patch does when it is carried out, and what it leaves alone. -/
inductive CarriedOut : Patch → Deployment → Deployment → Prop
  /-- One annotation is set, and the others stay as they were. -/
  | restart {time : Time.Instant} {d : Deployment} {annotations : TextMap}
      (hset : annotations.lookup restartKey = some time.text)
      (hothers : annotations.without restartKey = (templateAnnotations d).without restartKey) :
      CarriedOut (.restart time) d (putAnnotations annotations d)
  /-- The containers stay the same, but for images. -/
  | images {changes : List (String × String)} {d : Deployment} :
      CarriedOut (.images changes) d (giveImages changes d)

/-- Every patch is carried out on every deployment with the planned containers. -/
theorem carriedOut_apply (hd : HasDistinctNames d) (he : HasNamesOf d e)
    (hp : IsWrite d pushes time p) : CarriedOut p e (p.apply e) := by
  cases hp with
  | restart =>
      rw [apply_restart]
      exact .restart (lookup_setText _ _ _) (without_setText _ _ _)
  | images hpush hplan =>
      rw [apply_of_namesOf hd he hplan]
      exact .images

/-- The document of a deployment as a server stores it: without repeated keys, with a specification,
and with a name for every container. -/
structure IsStored (v : Json) (d : Deployment) : Prop where
  distinct : v.hasDistinctKeys = true
  reads : Deployment.ofJson? v = some d
  specified : d.spec.isSome
  named : ∀ names, containerNames? d = some names → "" ∉ names

/-- No patch repeats a key. -/
theorem hasDistinctKeys_toJson (p : Patch) : p.toJson.hasDistinctKeys = true := by
  cases p with
  | restart time => rfl
  | images changes =>
      have hone (key : String) (v : Json) :
          (obj [(key, v)]).hasDistinctKeys = v.hasDistinctKeys := by
        simp [hasDistinctKeys, membersHaveDistinctKeys]
      simp only [Patch.toJson, Patch.ofTemplate, hone]
      refine hasDistinctKeys_arr.2 fun v hv => ?_
      obtain ⟨change, -, rfl⟩ := List.mem_map.1 hv
      rfl

/-- **A write to the document of a deployment is a write to the deployment.** -/
theorem IsStored.merge {v : Json} (hv : IsStored v e) (hd : HasDistinctNames d)
    (he : HasNamesOf d e) (hp : IsWrite d pushes time p) :
    IsStored (Rollout.merge p.toJson v) (p.apply e) where
  distinct := hasDistinctKeys_mergeAt "" _ (hasDistinctKeys_toJson p) v hv.distinct
  reads := by
    refine ofJson?_merge hv.distinct hv.reads hv.specified fun changes hchanges change hmem => ?_
    cases hp with
    | restart => cases hchanges
    | images hpush hplan =>
        obtain ⟨names, hnames, -, hfits⟩ := fits_of_plan hd hplan
        obtain rfl := Patch.images.inj hchanges
        exact fun hempty => hv.named names (he.trans hnames) (hempty ▸ hfits.there change hmem)
  specified := rfl
  named names hnames := by
    have hafter : containerNames? (p.apply e) = containerNames? e :=
      (hasNamesOf_apply hd he hp).trans he.symm
    exact hv.named names (hafter ▸ hnames)

/-- Patches carried out on a deployment, one after the other. -/
def applyAll (ps : List Patch) (d : Deployment) : Deployment := ps.foldl (fun d p => p.apply d) d

/-- Patches merged into a document, one after the other. -/
def mergeAll (ps : List Patch) (v : Json) : Json := ps.foldl (fun v p => merge p.toJson v) v

/-- Patches that are merged into a stored document do to it what they do to the deployment. -/
theorem isStored_mergeAll {v : Json} (hv : IsStored v e) (hd : HasDistinctNames d)
    (he : HasNamesOf d e) {ps : List Patch} (hps : ∀ p ∈ ps, IsWrite d pushes time p) :
    IsStored (mergeAll ps v) (applyAll ps e) := by
  induction ps generalizing e v with
  | nil => exact hv
  | cons p rest ih =>
      obtain ⟨hp, hrest⟩ := List.forall_mem_cons.1 hps
      exact ih (hv.merge hd he hp) (hasNamesOf_apply hd he hp) hrest

/-- **The writes to a deployment with distinct container names commute.**  Only which patches are
carried out matters, neither their order nor how often; each of them changes nothing but what it is
meant for; and the same holds of the document that a server stores, whatever that lacks. -/
theorem writes_commute (hd : HasDistinctNames d) (hpushes : (pushes.map (·.image)).Nodup)
    (time : Time.Instant) {ps : List Patch} (hps : ∀ p ∈ ps, IsWrite d pushes time p) :
    (∀ qs, (∀ p, p ∈ ps ↔ p ∈ qs) → applyAll ps d = applyAll qs d) ∧
      (∀ p, IsWrite d pushes time p →
        CarriedOut p (applyAll ps d) (p.apply (applyAll ps d))) ∧
      ∀ v, IsStored v d → IsStored (mergeAll ps v) (applyAll ps d) := by
  have hcommuting := commuting_writes hd hpushes time
  refine ⟨fun qs hmem => hcommuting.foldl_eq rfl hps hmem, fun p hp => ?_,
    fun v hv => isStored_mergeAll hv hd rfl hps⟩
  exact carriedOut_apply hd (hcommuting.foldl_holds rfl hps) hp

/-- A deployment of two containers, without metadata for its pods. -/
def twoContainers : Deployment where
  metadata := { name := some "web" }
  spec := some
    { template := { spec := some { containers :=
        [{ name := "app", image := some "hub/app:1" },
          { name := "side", image := some "hub/side:1" }] } }
      rest := [("selector", .obj [])] }

/-- The document of the deployment. -/
def twoContainersStored : Json :=
  .obj [("metadata", .obj [("name", .str "web")]),
    ("spec", .obj [("selector", .obj []), ("template", .obj [("spec", .obj [("containers",
      .arr [.obj [("name", .str "app"), ("image", .str "hub/app:1")],
        .obj [("name", .str "side"), ("image", .str "hub/side:1")]])])])])]

theorem writes_commute_two :
    let pushes : List Push :=
      [{ image := "hub/app", tag := "2" }, { image := "hub/side", tag := "3" }]
    let time : Time.Instant := { seconds := 0, nanos := 0 }
    let app := Patch.images [("app", "hub/app:2")]
    let side := Patch.images [("side", "hub/side:3")]
    let after := applyAll [app, side, .restart time] twoContainers
    HasDistinctNames twoContainers ∧ (pushes.map (·.image)).Nodup ∧
      (∀ p ∈ [app, side, .restart time], IsWrite twoContainers pushes time p) ∧
      IsStored twoContainersStored twoContainers ∧
      after = applyAll [.restart time, side, app, side] twoContainers ∧
      CarriedOut side after (side.apply after) ∧
      IsStored (mergeAll [app, side, .restart time] twoContainersStored) after := by
  intro pushes time app side after
  have hnames : HasDistinctNames twoContainers := by
    intro pod hpod
    cases hpod
    decide
  have hpushes : (pushes.map (·.image)).Nodup := by decide
  have happ : IsWrite twoContainers pushes time app :=
    .images (p := { deployment := "web", changes := [("app", "hub/app:2")] })
      List.mem_cons_self (by decide)
  have hside : IsWrite twoContainers pushes time side :=
    .images (p := { deployment := "web", changes := [("side", "hub/side:3")] })
      (List.mem_cons_of_mem _ List.mem_cons_self) (by decide)
  have hall : ∀ p ∈ [app, side, .restart time], IsWrite twoContainers pushes time p := by
    simp only [List.forall_mem_cons]
    exact ⟨happ, hside, .restart, fun _ h => nomatch h⟩
  have hstored : IsStored twoContainersStored twoContainers := by
    refine ⟨rfl, rfl, rfl, fun names h => ?_⟩
    cases h
    decide
  obtain ⟨horder, hcarried, hdocument⟩ := writes_commute hnames hpushes time hall
  refine ⟨hnames, hpushes, hall, hstored, horder _ fun p => ?_, hcarried _ hside,
    hdocument _ hstored⟩
  simp only [List.mem_cons, List.not_mem_nil, or_false]
  tauto

end Writes

end ImageRollout.Rollout
