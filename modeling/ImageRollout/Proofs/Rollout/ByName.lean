import Mathlib.Data.List.Forall2
import ImageRollout.Proofs.Kubernetes.Rereading
import ImageRollout.Proofs.Rollout.Effect

/-!
# Images that are set by name

A patch knows containers by their names and by nothing else.  A name for which it has an image may
be that of a container, whatever that runs, or it may be nobody's; then the patch adds a container.

* `exists_merging`: what becomes of a list of containers.
* `mergesByName_apply`, `apply_foldl`: what one patch and several patches make of a deployment.
* `exists_moved`: an image that a patch has for a name is there afterwards.
* `isModest_of_merges`: when nothing changes but images of containers that run the pushed image.
-/

namespace ImageRollout.Rollout

open Image Kubernetes

section Containers

variable {changes : List (String × String)} {change : String × String}
  {cs kept added : List Container}

/-- The container as it was, or with an image that is meant for its name. -/
def IsKept (changes : List (String × String)) (c c' : Container) : Prop :=
  c' = c ∨ ∃ image, (c.name, image) ∈ changes ∧ c' = { c with image := some image }

/-- A container of a name that no other one bears, with nothing but an image that is meant for that
name. -/
def IsNew (changes : List (String × String)) (cs : List Container) (c : Container) : Prop :=
  c.name ∉ cs.map (·.name) ∧
    ∃ image, (c.name, image) ∈ changes ∧ c = { name := c.name, image := some image }

/-- What images by name leave of a list of containers, and what they add behind it. -/
structure Merging (changes : List (String × String)) (cs kept added : List Container) : Prop where
  left : List.Forall₂ (IsKept changes) cs kept
  fresh : ∀ c ∈ added, IsNew changes cs c
  distinct : (added.map (·.name)).Nodup

/-- More changes leave a container that was kept among the kept ones. -/
theorem IsKept.mono {more : List (String × String)} (h : changes ⊆ more) {c c' : Container}
    (hkept : IsKept changes c c') : IsKept more c c' := by
  rcases hkept with rfl | ⟨image, himage, rfl⟩
  · exact .inl rfl
  · exact .inr ⟨image, h himage, rfl⟩

/-- A container that some changes added is added by more changes too. -/
theorem IsNew.mono {more : List (String × String)} (h : changes ⊆ more) {c : Container}
    (hnew : IsNew changes cs c) : IsNew more cs c := by
  obtain ⟨hfresh, image, himage, heq⟩ := hnew
  exact ⟨hfresh, image, h himage, heq⟩

/-- Containers that are kept keep their names and their order. -/
theorem names_of_kept (h : List.Forall₂ (IsKept changes) cs kept) :
    kept.map (·.name) = cs.map (·.name) := by
  induction h with
  | nil => rfl
  | cons hc _ ih =>
      rw [List.map_cons, List.map_cons, ih]
      rcases hc with rfl | ⟨image, -, rfl⟩ <;> rfl

/-- An image for a name that none of the first containers bears is not for them. -/
theorem setImage_append_of_notMem (h : change.1 ∉ kept.map (·.name)) :
    setImage change (kept ++ added) = kept ++ setImage change added := by
  induction kept with
  | nil => rfl
  | cons c rest ih =>
      obtain ⟨hc, hrest⟩ := not_or.1 (List.mem_cons.not.1 h)
      rw [List.cons_append, setImage, if_neg (Ne.symm hc), ih hrest, List.cons_append]

/-- An image for a name that one of the first containers bears is for them only. -/
theorem setImage_append_of_mem (h : change.1 ∈ kept.map (·.name)) :
    setImage change (kept ++ added) = setImage change kept ++ added := by
  induction kept with
  | nil => cases h
  | cons c rest ih =>
      rw [List.cons_append, setImage, setImage]
      by_cases hc : c.name = change.1
      · rw [if_pos hc, if_pos hc, List.cons_append]
      · have hrest : change.1 ∈ rest.map (·.name) :=
          (List.mem_cons.1 h).resolve_left (Ne.symm hc)
        rw [if_neg hc, if_neg hc, ih hrest, List.cons_append]

/-- One more image for a container that is there. -/
theorem forall₂_setImage (h : List.Forall₂ (IsKept changes) cs kept)
    (hmem : change.1 ∈ kept.map (·.name)) :
    List.Forall₂ (IsKept (changes ++ [change])) cs (setImage change kept) := by
  have hmore : changes ⊆ changes ++ [change] := List.subset_append_left _ _
  induction h with
  | nil => cases hmem
  | @cons c c' _ rest hc hrest ih =>
      rw [setImage]
      by_cases hname : c'.name = change.1
      · rw [if_pos hname]
        refine .cons (.inr ⟨change.2, ?_, ?_⟩) (hrest.imp fun _ _ => IsKept.mono hmore)
        · have hown : c.name = change.1 := by
            rcases hc with rfl | ⟨image, -, rfl⟩ <;> exact hname
          rw [hown]
          exact List.mem_append_right _ (List.mem_singleton.2 rfl)
        · rcases hc with rfl | ⟨image, -, rfl⟩ <;> rfl
      · rw [if_neg hname]
        exact .cons (hc.mono hmore) (ih ((List.mem_cons.1 hmem).resolve_left (Ne.symm hname)))

/-- Changes can be made in two parts. -/
theorem setImages_append (first later : List (String × String)) (cs : List Container) :
    setImages (first ++ later) cs = setImages later (setImages first cs) :=
  List.foldl_append

/-- A container after a change is an old one, an old one with another image, or a new one. -/
theorem mem_setImage {c : Container} (h : c ∈ setImage change cs) :
    c ∈ cs ∨
      (∃ old ∈ cs, old.name = change.1 ∧ c = { old with image := some change.2 }) ∨
      c = { name := change.1, image := some change.2 } := by
  induction cs with
  | nil => exact .inr (.inr (List.mem_singleton.1 h))
  | cons k rest ih =>
      rw [setImage] at h
      split at h
      next hname =>
        rcases List.mem_cons.1 h with rfl | hrest
        · exact .inr (.inl ⟨k, List.mem_cons_self, hname, rfl⟩)
        · exact .inl (List.mem_cons_of_mem _ hrest)
      next =>
        rcases List.mem_cons.1 h with rfl | hrest
        · exact .inl List.mem_cons_self
        · rcases ih hrest with hold | ⟨old, hold, hc⟩ | hc
          · exact .inl (List.mem_cons_of_mem _ hold)
          · exact .inr (.inl ⟨old, List.mem_cons_of_mem _ hold, hc⟩)
          · exact .inr (.inr hc)

/-- A change adds a name just if no container bears it. -/
theorem names_setImage : (setImage change cs).map (·.name) =
    if change.1 ∈ cs.map (·.name) then cs.map (·.name) else cs.map (·.name) ++ [change.1] := by
  induction cs with
  | nil => rfl
  | cons c rest ih =>
      rw [setImage]
      by_cases hc : c.name = change.1
      · rw [if_pos hc, if_pos (by simp [hc])]
        rfl
      · rw [if_neg hc, List.map_cons, ih, List.map_cons]
        have hmem : change.1 ∈ c.name :: rest.map (·.name) ↔ change.1 ∈ rest.map (·.name) :=
          List.mem_cons.trans (or_iff_right (Ne.symm hc))
        by_cases hrest : change.1 ∈ rest.map (·.name)
        · rw [if_pos hrest, if_pos (hmem.2 hrest)]
        · rw [if_neg hrest, if_neg (hmem.not.2 hrest), List.cons_append]

/-- One more image, for a container that is there or for one that is not. -/
theorem Merging.setImage (h : Merging changes cs kept added) (change : String × String) :
    ∃ kept' added', Merging (changes ++ [change]) cs kept' added' ∧
      setImage change (kept ++ added) = kept' ++ added' := by
  have hmore : changes ⊆ changes ++ [change] := List.subset_append_left _ _
  have hlast : change ∈ changes ++ [change] := List.mem_append_right _ (List.mem_singleton.2 rfl)
  by_cases hmem : change.1 ∈ kept.map (·.name)
  · exact ⟨_, _,
      ⟨forall₂_setImage h.left hmem, fun c hc => (h.fresh c hc).mono hmore, h.distinct⟩,
      setImage_append_of_mem hmem⟩
  · refine ⟨_, _, ⟨h.left.imp fun _ _ => IsKept.mono hmore, fun c hc => ?_, ?_⟩,
      setImage_append_of_notMem hmem⟩
    · rcases mem_setImage hc with hold | ⟨old, hold, hname, rfl⟩ | rfl
      · exact (h.fresh c hold).mono hmore
      · -- A container that was added has nothing but its image, and now another one.
        obtain ⟨hfresh, image, -, heq⟩ := h.fresh old hold
        refine ⟨hfresh, change.2, hname ▸ hlast, ?_⟩
        rw [heq]
      · rw [names_of_kept h.left] at hmem
        exact ⟨hmem, change.2, hlast, rfl⟩
    · rw [names_setImage]
      split
      next => exact h.distinct
      next hfresh => exact List.nodup_append.2 ⟨h.distinct, List.nodup_singleton _, by grind⟩

/-- **What images by name do**: every container stays, with another image at most, and none is added
but for a name that nobody bears. -/
theorem exists_merging (changes : List (String × String)) (cs : List Container) :
    ∃ kept added, Merging changes cs kept added ∧ setImages changes cs = kept ++ added := by
  -- From the left, each image finds what those before it have left and added.
  induction changes using List.reverseRecOn with
  | nil =>
      refine ⟨cs, [], ⟨?_, by simp, List.nodup_nil⟩, (List.append_nil cs).symm⟩
      exact List.forall₂_same.2 fun c _ => .inl rfl
  | append_singleton before change ih =>
      obtain ⟨kept, added, hmerging, heq⟩ := ih
      obtain ⟨kept', added', hmerging', heq'⟩ := hmerging.setImage change
      refine ⟨kept', added', hmerging', ?_⟩
      rw [setImages_append, heq]
      exact heq'

/-- After a change some container has the name and the image it tells of. -/
theorem exists_setImage (change : String × String) (cs : List Container) :
    ∃ c ∈ setImage change cs, c.name = change.1 ∧ c.image = some change.2 := by
  induction cs with
  | nil => exact ⟨_, List.mem_cons_self, rfl, rfl⟩
  | cons c rest ih =>
      rw [setImage]
      split
      next hname => exact ⟨_, List.mem_cons_self, hname, rfl⟩
      next =>
        obtain ⟨k, hk, himage⟩ := ih
        exact ⟨k, List.mem_cons_of_mem _ hk, himage⟩

/-- An image that is set once more is still there. -/
theorem exists_setImage_of_exists {name text : String} (htext : change.2 = text)
    (h : ∃ c ∈ cs, c.name = name ∧ c.image = some text) :
    ∃ c ∈ setImage change cs, c.name = name ∧ c.image = some text := by
  induction cs with
  | nil => simp at h
  | cons c rest ih =>
      obtain ⟨k, hk, hname, himage⟩ := h
      rw [setImage]
      split
      next heq =>
        rcases List.mem_cons.1 hk with rfl | hrest
        · exact ⟨_, List.mem_cons_self, hname, congrArg some htext⟩
        · exact ⟨k, List.mem_cons_of_mem _ hrest, hname, himage⟩
      next =>
        rcases List.mem_cons.1 hk with rfl | hrest
        · exact ⟨_, List.mem_cons_self, hname, himage⟩
        · obtain ⟨k', hk', hset⟩ := ih ⟨k, hrest, hname, himage⟩
          exact ⟨k', List.mem_cons_of_mem _ hk', hset⟩

/-- Where there is one image for all, every name has it in the end. -/
theorem exists_moved {text : String} (htext : ∀ change ∈ changes, change.2 = text)
    (hmem : change ∈ changes) (cs : List Container) :
    ∃ c ∈ setImages changes cs, c.name = change.1 ∧ c.image = some text := by
  induction changes using List.reverseRecOn with
  | nil => cases hmem
  | append_singleton before last ih =>
      have hlast : last.2 = text := htext last (List.mem_append_right _ (List.mem_singleton.2 rfl))
      rw [setImages_append]
      rcases List.mem_append.1 hmem with hbefore | hthis
      · exact exists_setImage_of_exists hlast
          (ih (fun c hc => htext c (List.mem_append_left _ hc)) hbefore)
      · obtain rfl := List.mem_singleton.1 hthis
        rw [← hlast]
        exact exists_setImage change _

end Containers

section Deployments

variable {push : Push} {changes : List (String × String)} {before after : Deployment}

/-- The deployment with these containers, and with what is needed to hold them. -/
def putContainers (cs : List Container) (d : Deployment) : Deployment :=
  let s := d.spec.getD {}
  let pod := s.template.spec.getD {}
  { d with
    spec := some { s with
      template := { s.template with spec := some { pod with containers := cs } } } }

/-- A deployment comes of another by images that were set by name. -/
def MergesByName (changes : List (String × String)) (before after : Deployment) : Prop :=
  ∃ kept added, Merging changes (Listing.containers.of before) kept added ∧
    after = putContainers (kept ++ added) before

/-- At most images of containers that run the pushed image have changed, and nothing else. -/
def IsModest (push : Push) (before after : Deployment) : Prop :=
  ∃ cs, List.Forall₂
      (fun c c' => c' = c ∨
        c.image.any push.sameImage = true ∧ ∃ image, c' = { c with image := some image })
      (Listing.containers.of before) cs ∧
    after = mapPodSpec (fun pod => { pod with containers := cs }) before

@[simp] theorem of_putContainers (cs : List Container) (d : Deployment) :
    Listing.containers.of (putContainers cs d) = cs := rfl

/-- Names that are distinct in a deployment are distinct among its containers. -/
theorem nodup_containers {d : Deployment} (h : HasDistinctNames d) :
    ((Listing.containers.of d).map (·.name)).Nodup := by
  rw [Listing.of]
  cases hpod : d.podSpec? with
  | none => exact List.nodup_nil
  | some pod => exact h pod hpod

/-- To apply a patch of images is to set them one after the other. -/
theorem apply_images (changes : List (String × String)) (d : Deployment) :
    (Patch.images changes).apply d =
      putContainers (setImages changes (Listing.containers.of d)) d := by
  obtain ⟨metadata, spec, status⟩ := d
  cases spec with
  | none => rfl
  | some s =>
      obtain ⟨⟨templateMetadata, podSpec⟩, others⟩ := s
      cases podSpec <;> rfl

/-- A patch of images goes by the names of the containers and leaves everything else. -/
theorem mergesByName_apply (changes : List (String × String)) (d : Deployment) :
    MergesByName changes d ((Patch.images changes).apply d) := by
  obtain ⟨kept, added, hmerging, heq⟩ := exists_merging changes (Listing.containers.of d)
  exact ⟨kept, added, hmerging, by rw [apply_images, heq]⟩

/-- One patch after the other is the patch of all that they list. -/
theorem apply_apply (first later : List (String × String)) (d : Deployment) :
    (Patch.images later).apply ((Patch.images first).apply d) =
      (Patch.images (first ++ later)).apply d := by
  rw [apply_images, apply_images first, apply_images, of_putContainers, setImages_append]
  rfl

/-- The plans that are carried out on a deployment are as one. -/
theorem apply_foldl (plans : List Plan) (p : Plan) (d : Deployment) :
    (plans ++ [p]).foldl (fun d p => p.patch.apply d) d =
      (Patch.images ((plans ++ [p]).flatMap (·.changes))).apply d := by
  induction plans generalizing d with
  | nil => simp [Plan.patch]
  | cons first rest ih =>
      rw [List.cons_append, List.foldl_cons, ih, Plan.patch, apply_apply, List.flatMap_cons]

/-- A pod that is there is all that is needed to hold containers. -/
theorem putContainers_eq_mapPodSpec {cs : List Container} {d : Deployment}
    (h : d.podSpec?.isSome) :
    putContainers cs d = mapPodSpec (fun pod => { pod with containers := cs }) d := by
  obtain ⟨metadata, spec, status⟩ := d
  cases spec with
  | none => cases h
  | some s =>
      obtain ⟨⟨templateMetadata, podSpec⟩, others⟩ := s
      cases podSpec with
      | none => cases h
      | some pod => rfl

/-- **Where names mean what they should**, that is, where each is there and stands for containers
that run the pushed image, images that are set by name change nothing else. -/
theorem isModest_of_merges (hne : changes ≠ [])
    (hthere : ∀ change ∈ changes, change.1 ∈ (Listing.containers.of before).map (·.name))
    (hruns : ∀ c ∈ Listing.containers.of before, c.name ∈ changes.map (·.1) →
      c.image.any push.sameImage = true)
    (h : MergesByName changes before after) : IsModest push before after := by
  obtain ⟨kept, added, hmerging, rfl⟩ := h
  have hnone : added = [] := by
    refine List.eq_nil_iff_forall_not_mem.2 fun c hc => ?_
    obtain ⟨hfresh, image, himage, -⟩ := hmerging.fresh c hc
    exact hfresh (hthere _ himage)
  have hpod : before.podSpec?.isSome := by
    obtain ⟨change, hchange⟩ := List.exists_mem_of_ne_nil changes hne
    have hmem := hthere change hchange
    cases hpod : before.podSpec? with
    | none => simp [Listing.of, hpod] at hmem
    | some pod => rfl
  refine ⟨kept, ?_, by rw [hnone, List.append_nil, putContainers_eq_mapPodSpec hpod]⟩
  refine ((List.forall₂_and_left _ _).2 ⟨fun c hc => hc, hmerging.left⟩).imp ?_
  rintro c c' ⟨hc, rfl | ⟨image, himage, rfl⟩⟩
  · exact .inl rfl
  · exact .inr ⟨hruns c hc (List.mem_map.2 ⟨_, himage, rfl⟩), image, rfl⟩

end Deployments

end ImageRollout.Rollout
