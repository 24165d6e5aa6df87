import Mathlib.Data.List.Nodup
import ImageRollout.Proofs.Image.Reading
import ImageRollout.Proofs.Rollout.Merge

/-!
# What a push does to a deployment

A deployment whose containers all bear different names is changed by the patch of its plan in
exactly one respect: the images that the push supersedes are replaced by the push.

* `setImages_outdated`: the containers after the patch, one by one.
* `apply_of_plan`, `mapImages_of_no_plan`: a push replaces images, with a plan or without.
-/

namespace ImageRollout.Rollout

open Image Kubernetes

section Images

/-- A container with another image, if it has one. -/
def mapImage (f : String → String) (c : Container) : Container :=
  { c with image := c.image.map f }

/-- A deployment with other images for its containers, and all else as it was. -/
def mapImages (f : String → String) (d : Deployment) : Deployment :=
  { d with
    spec := d.spec.map fun s =>
      { s with
        template :=
          { s.template with
            spec := s.template.spec.map fun pod =>
              { pod with containers := pod.containers.map (mapImage f) } } } }

/-- No two containers of the deployment bear one name. -/
def HasDistinctNames (d : Deployment) : Prop :=
  ∀ pod, d.podSpec? = some pod → (pod.containers.map (·.name)).Nodup

variable {f g : String → String} {d : Deployment}

@[simp] theorem name_mapImages : (mapImages f d).name = d.name := rfl

/-- The pod of a deployment has the new images in its containers. -/
theorem podSpec?_mapImages : (mapImages f d).podSpec? =
    d.podSpec?.map fun pod => { pod with containers := pod.containers.map (mapImage f) } := by
  cases hspec : d.spec with
  | none => simp [mapImages, Deployment.podSpec?, hspec]
  | some s => simp [mapImages, Deployment.podSpec?, hspec]

/-- Images that are mapped twice are mapped by the composition. -/
theorem mapImage_mapImage (c : Container) : mapImage g (mapImage f c) = mapImage (g ∘ f) c := by
  simp [mapImage, Function.comp_def]

/-- So it is for all containers of a deployment. -/
theorem mapImages_mapImages : mapImages g (mapImages f d) = mapImages (g ∘ f) d := by
  simp [mapImages, mapImage_mapImage, Function.comp_def]

/-- A deployment whose containers stay as they are stays as it is. -/
theorem mapImages_eq_self
    (h : ∀ pod, d.podSpec? = some pod → ∀ c ∈ pod.containers, mapImage f c = c) :
    mapImages f d = d := by
  obtain ⟨metadata, spec, status⟩ := d
  cases spec with
  | none => rfl
  | some s =>
      obtain ⟨⟨templateMetadata, podSpec⟩, others⟩ := s
      cases podSpec with
      | none => rfl
      | some pod =>
          have hcontainers : pod.containers.map (mapImage f) = pod.containers :=
            (List.map_congr_left (h pod rfl)).trans (List.map_id _)
          simp [mapImages, hcontainers]

/-- Changing images changes no name. -/
theorem hasDistinctNames_mapImages (h : HasDistinctNames d) :
    HasDistinctNames (mapImages f d) := by
  intro pod hpod
  rw [podSpec?_mapImages] at hpod
  obtain ⟨old, hold, rfl⟩ := Option.map_eq_some_iff.1 hpod
  simpa [mapImage, Function.comp_def] using h old hold

end Images

/-- Images for other containers leave the first one alone. -/
theorem setImages_cons {changes : List (String × String)} {c : Container}
    (h : ∀ change ∈ changes, c.name ≠ change.1) (cs : List Container) :
    setImages changes (c :: cs) = c :: setImages changes cs := by
  induction changes generalizing cs with
  | nil => rfl
  | cons change rest ih =>
      rw [setImages, List.foldl_cons, setImage, if_neg (h change List.mem_cons_self)]
      exact ih (fun other hother => h other (List.mem_cons_of_mem _ hother)) _

/-- A push that is all there is replaces what it supersedes. -/
theorem mapImage_settle (push : Push) (c : Container) :
    mapImage (Push.settle [push]) c =
      if isOutdated push c then { c with image := some push.text } else c := by
  obtain ⟨name, image, policy, others⟩ := c
  cases image with
  | none => rfl
  | some image =>
      by_cases h : push.supersedes image = true
      · simp [mapImage, isOutdated, Push.settle, h]
      · simp [mapImage, isOutdated, Push.settle, h]

/-- **The containers after the patch.**  The outdated ones have the pushed image, the others what
they had. -/
theorem setImages_outdated (push : Push) {cs : List Container} (h : (cs.map (·.name)).Nodup) :
    setImages ((cs.filter (isOutdated push)).map fun c => (c.name, push.text)) cs =
      cs.map (mapImage (Push.settle [push])) := by
  induction cs with
  | nil => rfl
  | cons c rest ih =>
      obtain ⟨hnew, hrest⟩ := List.nodup_cons.1 h
      have hothers :
          ∀ change ∈ (rest.filter (isOutdated push)).map fun c => (c.name, push.text),
            c.name ≠ change.1 := by
        intro change hchange heq
        obtain ⟨k, hk, rfl⟩ := List.mem_map.1 hchange
        exact hnew (List.mem_map.2 ⟨k, (List.mem_filter.1 hk).1, heq.symm⟩)
      rw [List.map_cons, mapImage_settle]
      by_cases hc : isOutdated push c = true
      · rw [if_pos hc, List.filter_cons_of_pos hc, List.map_cons, setImages, List.foldl_cons,
          setImage, if_pos rfl]
        rw [← ih hrest]
        exact setImages_cons (c := { c with image := some push.text }) hothers rest
      · rw [if_neg hc, List.filter_cons_of_neg hc, setImages_cons hothers, ih hrest]

/-- A deployment is planned for exactly if one of its containers is outdated. -/
theorem planOne_eq_none_iff {push : Push} {d : Deployment} :
    planOne push d = none ↔
      ∀ pod, d.podSpec? = some pod → ∀ c ∈ pod.containers, isOutdated push c = false := by
  have hchanges : planOne push d = none ↔ changes push d = [] := by
    rw [planOne]
    split
    next h => simp [h]
    next h =>
      constructor
      · intro hnone
        cases hnone
      · intro hnil
        exact absurd hnil h
  rw [hchanges, changes]
  cases hpod : d.podSpec? with
  | none => simp
  | some pod => simp [List.filter_eq_nil_iff]

/-- A plan names its deployment. -/
theorem deployment_of_plan {push : Push} {d : Deployment} {p : Plan}
    (h : planOne push d = some p) : p.deployment = d.name := by
  rw [planOne] at h
  split at h
  next => cases h
  next =>
    cases h
    rfl

/-- A deployment without a plan already has what the push would give it. -/
theorem mapImages_of_no_plan {push : Push} {d : Deployment} (h : planOne push d = none) :
    mapImages (Push.settle [push]) d = d := by
  rw [planOne_eq_none_iff] at h
  refine mapImages_eq_self fun pod hpod c hc => ?_
  rw [mapImage_settle, h pod hpod c hc]
  rfl

/-- **The patch of a plan replaces the superseded images** and nothing else. -/
theorem apply_of_plan {push : Push} {d : Deployment} {p : Plan} (hd : HasDistinctNames d)
    (h : planOne push d = some p) : p.patch.apply d = mapImages (Push.settle [push]) d := by
  rw [planOne] at h
  split at h
  next => cases h
  next images hne =>
    cases h
    obtain ⟨metadata, spec, status⟩ := d
    cases spec with
    | none => exact absurd rfl hne
    | some s =>
        obtain ⟨⟨templateMetadata, podSpec⟩, others⟩ := s
        cases podSpec with
        | none => exact absurd rfl hne
        | some pod =>
            have himages := setImages_outdated push (hd pod rfl)
            simp only [Plan.patch, Patch.apply, Patch.applyTemplate, changes, Deployment.podSpec?,
              Option.bind_some, Option.getD_some, himages, mapImages, Option.map_some]

/-- **The patch of a plan is the merge of its document**, since all that it changes is there. -/
theorem merge_of_plan {push : Push} {d : Deployment} {p : Plan} (hd : HasDistinctNames d)
    (h : planOne push d = some p) :
    ∃ s s', d.spec = some s ∧ (p.patch.apply d).spec = some s' ∧
      merge p.patch.toJson (Patch.ofTemplate s.template.toJson) =
        Patch.ofTemplate s'.template.toJson := by
  rw [planOne] at h
  split at h
  next => cases h
  next images hne =>
    cases h
    rw [changes] at hne ⊢
    cases hpod : d.podSpec? with
    | none => exact absurd (by rw [hpod]) hne
    | some pod =>
        obtain ⟨s, hs, hspec⟩ := Option.bind_eq_some_iff.1 hpod
        refine ⟨s, _, hs, rfl, ?_⟩
        simp only [hs, Option.getD_some]
        refine merge_toJson ⟨pod, hspec, fun c hc hname => ?_⟩
        -- A container that is changed is the outdated one of its name.
        obtain ⟨change, hchange, hchangeName⟩ := List.mem_map.1 hname
        obtain ⟨k, hk, rfl⟩ := List.mem_map.1 hchange
        obtain ⟨hkpod, hkold⟩ := List.mem_filter.1 hk
        have hkc : k = c := List.inj_on_of_nodup_map (hd pod hpod) hkpod hc hchangeName
        rw [← hkc]
        cases himage : k.image with
        | none => simp [isOutdated, himage] at hkold
        | some image => rfl

end ImageRollout.Rollout
