import ImageRollout.Proofs.Admission.Pinning
import ImageRollout.Proofs.Image.Canonical
import ImageRollout.Proofs.Kubernetes.Rereading

/-!
# Pinning a deployment again

A deployment that was pinned and is submitted again is left alone, as long as its images resolve as
before: an image under a new tag is read with the host, the project and the repository that it had,
so it resolves to the tag that it has got.

* `pinned?_renewed`: an image that was renewed is not replaced.
* `carryOut_replacements`: what the replacements make of a deployment, container by container.
* `read?_renewDocument`: that is what is read of the document once it is patched.
* `pinned_for_good`: pinning is done in one pass.
-/

namespace ImageRollout.Admission

open Image Kubernetes Json

section Images

variable {resolve : Resolver}

/-- All tags that are resolved are tags that an image can be given. -/
def GivesTags (resolve : Resolver) : Prop :=
  ∀ host project repo tag, resolve host project repo = .ok tag → IsTag tag

theorem pinned?_eq_some_iff {image new : String} :
    pinned? resolve image = some new ↔
      ∃ tag, latestTag resolve (.parse image) = .ok tag ∧
        tag ≠ (Reference.parse image).tag ∧
        new = ((Reference.parse image).withTag tag).text := by
  rw [pinned?]
  cases latestTag resolve (.parse image) with
  | error failure => simp
  | ok latest =>
      by_cases h : latest = (Reference.parse image).tag
      · simp [h]
      · simp [h, eq_comm]

/-- **A pinned image keeps its host, its project, its repository and its shape.** -/
theorem parse_of_pinned? (htags : GivesTags resolve) {image new : String}
    (h : pinned? resolve image = some new) :
    ∃ tag, latestTag resolve (.parse image) = .ok tag ∧
      Reference.parse new = (Reference.parse image).withTag tag := by
  obtain ⟨tag, htag, -, rfl⟩ := pinned?_eq_some_iff.1 h
  exact ⟨tag, htag, (Reference.parse_text_withTag_iff image tag).2 (htags _ _ _ _ htag)⟩

/-- **An image that was renewed is not replaced.** -/
theorem pinned?_renewed (htags : GivesTags resolve) (image : String) :
    pinned? resolve (renewed resolve image) = none := by
  rw [renewed_eq]
  cases hpinned : pinned? resolve image with
  | none => exact hpinned
  | some new =>
      obtain ⟨tag, htag, hread⟩ := parse_of_pinned? htags hpinned
      have hagain : latestTag resolve (.parse new) = .ok tag := by
        rw [hread]
        exact htag
      rw [Option.getD_some, pinned?, hagain, hread]
      exact if_pos rfl

end Images

section Deployments

/-- A deployment with each of its lists of containers changed. -/
def mapListings (f : Listing → List Container → List Container) (d : Deployment) : Deployment :=
  mapPodSpec (fun s => Listing.containers.mapPod (f .containers)
    (Listing.initContainers.mapPod (f .initContainers) s)) d

/-- What replacements give to the image of the container at a place, if anything. -/
def valueFor? (rs : List Replacement) (l : Listing) (index : Nat) : Option String :=
  (rs.find? (·.path = imagePath l.key index)).map (·.value)

/-- Containers with their images replaced.  Where there is no image, there is nothing to replace. -/
def replaceImages (rs : List Replacement) (l : Listing) (cs : List Container) : List Container :=
  cs.mapIdx fun index c => { c with image := c.image.map (valueFor? rs l index).getD }

/-- A deployment after replacements were carried out. -/
def carryOut (rs : List Replacement) (d : Deployment) : Deployment :=
  mapListings (replaceImages rs) d

variable {f g : Listing → List Container → List Container} {d : Deployment}

theorem of_mapListings (hnil : ∀ l, f l [] = []) (l : Listing) :
    l.of (mapListings f d) = f l (l.of d) := by
  cases l with
  | initContainers =>
      rw [Listing.of, Listing.of, mapListings, podSpec?_mapPodSpec]
      cases d.podSpec? with
      | none => exact (hnil _).symm
      | some s =>
          cases hinits : s.initContainers with
          | none => simpa [Listing.mapPod, hinits] using (hnil .initContainers).symm
          | some cs => simp [Listing.mapPod, hinits]
  | containers =>
      rw [Listing.of, Listing.of, mapListings, podSpec?_mapPodSpec]
      cases d.podSpec? with
      | none => exact (hnil _).symm
      | some s => rfl

theorem mapListings_congr (h : ∀ l, f l (l.of d) = g l (l.of d)) :
    mapListings f d = mapListings g d := by
  obtain ⟨metadata, spec, status⟩ := d
  cases spec with
  | none => rfl
  | some s =>
      obtain ⟨⟨templateMetadata, podSpec⟩, others⟩ := s
      cases podSpec with
      | none => rfl
      | some pod =>
          obtain ⟨inits, containers, rest⟩ := pod
          have hcontainers : f .containers containers = g .containers containers := h .containers
          cases inits with
          | none => simp [mapListings, mapPodSpec, Listing.mapPod, hcontainers]
          | some inits =>
              have hinits : f .initContainers inits = g .initContainers inits := h .initContainers
              simp [mapListings, mapPodSpec, Listing.mapPod, hcontainers, hinits]

end Deployments

section Renewal

variable (resolve : Resolver)

/-- A container with its image renewed. -/
def renewContainer (c : Container) : Container := { c with image := c.image.map (renewed resolve) }

/-- A deployment with the images of all containers renewed. -/
def renewDeployment (d : Deployment) : Deployment :=
  mapListings (fun _ => List.map (renewContainer resolve)) d

/-- The replacement that leads to a container is the container's own. -/
theorem replacement?_of_mem {d : Deployment} {r : Replacement} (hr : r ∈ replacements resolve d)
    {l : Listing} {index : Nat} {c : Container} (hc : (l.of d)[index]? = some c)
    (hpath : r.path = imagePath l.key index) :
    Place.replacement? resolve ⟨l, index, c⟩ = some r := by
  rw [replacements_eq] at hr
  obtain ⟨⟨l', index', c'⟩, hp, hreplaced⟩ := List.mem_filterMap.1 hr
  have hplace := Place.path_of_replacement? resolve hreplaced
  obtain ⟨rfl, rfl⟩ := imagePath_injective (hplace.symm.trans hpath)
  have hc' := mem_places hp
  rw [hc] at hc'
  cases hc'
  exact hreplaced

theorem mem_places_of_getElem? {d : Deployment} {l : Listing} {index : Nat} {c : Container}
    (hc : (l.of d)[index]? = some c) : ⟨l, index, c⟩ ∈ places d := by
  refine List.mem_flatMap.2 ⟨l, by cases l <;> simp, ?_⟩
  exact List.mem_map.2 ⟨(c, index), List.mem_zipIdx_iff_getElem?.2 hc, rfl⟩

/-- The replacements give an image what it is pinned to. -/
theorem valueFor?_replacements {d : Deployment} {l : Listing} {index : Nat} {c : Container}
    (hc : (l.of d)[index]? = some c) {image : String} (himage : c.image = some image) :
    valueFor? (replacements resolve d) l index = pinned? resolve image := by
  have hown : Place.replacement? resolve ⟨l, index, c⟩ =
      (pinned? resolve image).map fun value => ⟨imagePath l.key index, value⟩ := by
    rw [← replacement?_eq, replacement?, himage, Option.bind_some]
  rw [valueFor?]
  cases hfind : (replacements resolve d).find? (·.path = imagePath l.key index) with
  | some r =>
      have hpath : r.path = imagePath l.key index := by simpa using List.find?_some hfind
      have hr := replacement?_of_mem resolve (List.mem_of_find?_eq_some hfind) hc hpath
      obtain ⟨value, hvalue, rfl⟩ := Option.map_eq_some_iff.1 (hown.symm.trans hr)
      exact hvalue.symm
  | none =>
      cases hpinned : pinned? resolve image with
      | none => rfl
      | some value =>
          rw [hpinned, Option.map_some] at hown
          have hmem : ⟨imagePath l.key index, value⟩ ∈ replacements resolve d := by
            rw [replacements_eq]
            exact List.mem_filterMap.2 ⟨_, mem_places_of_getElem? hc, hown⟩
          have hnot := List.find?_eq_none.1 hfind _ hmem
          exact absurd (decide_eq_true rfl) hnot

/-- **What the replacements make of a deployment**: all its images are renewed. -/
theorem carryOut_replacements (d : Deployment) :
    carryOut (replacements resolve d) d = renewDeployment resolve d := by
  refine mapListings_congr fun l => List.ext_getElem? fun index => ?_
  rw [replaceImages, List.getElem?_mapIdx, List.getElem?_map]
  cases hc : (l.of d)[index]? with
  | none => rfl
  | some c =>
      rw [Option.map_some, Option.map_some, renewContainer]
      cases himage : c.image with
      | none => rfl
      | some image =>
          rw [Option.map_some, Option.map_some, valueFor?_replacements resolve hc himage,
            renewed_eq]

theorem follows_renewImage : Follows text? (renewImage resolve) (renewed resolve) where
  null_iff v := by cases v <;> simp [renewImage]
  read v := by cases v <;> rfl

theorem follows_renewContainers (levels : Nat) :
    Follows (listOf? (Container.read? levels)) (renewContainers resolve)
      (List.map (renewContainer resolve)) where
  null_iff v := by cases v <;> simp [renewContainers, mapItems]
  read v := by
    cases v with
    | arr items =>
        exact mapM_map_of_follows (follows_container (follows_renewImage resolve) levels).read items
    | _ => rfl

/-- **What is read of the patched document**: the deployment with all images renewed. -/
theorem read?_renewDocument (levels : Nat) (v : Json) :
    Deployment.read? levels (renewDocument resolve v) =
      (Deployment.read? levels v).map (renewDeployment resolve) := by
  have hlisting := follows_listing levels List.map_nil (follows_renewContainers resolve)
  have hboth := ((hlisting .containers).comp (hlisting .initContainers)).read v
  refine hboth.trans (congrArg (Option.map · _) (funext fun d => ?_))
  simp [renewDeployment, mapListings, mapPodSpec, Function.comp_def]

end Renewal

/-- A deployment whose images are renewed has nothing to replace. -/
theorem replacements_renewDeployment {resolve : Resolver} (htags : GivesTags resolve)
    (d : Deployment) : replacements resolve (renewDeployment resolve d) = [] := by
  have hlisting (l : Listing) : containerReplacements resolve l.key
      (l.of (renewDeployment resolve d)) = [] := by
    rw [renewDeployment, of_mapListings fun _ => List.map_nil, containerReplacements,
      List.filterMap_eq_nil_iff]
    rintro ⟨c, index⟩ hc
    have hitem := List.mem_of_getElem? (List.mem_zipIdx_iff_getElem?.1 hc)
    obtain ⟨old, -, rfl⟩ := List.mem_map.1 hitem
    cases himage : old.image <;>
      simp [replacement?, renewContainer, himage, pinned?_renewed htags]
  rw [replacements_eq_append, hlisting, hlisting]
  rfl

/-- **Pinning is done in one pass.**  Let every tag that is resolved be one that an image can have,
that is without a slash and a colon.  The law behind it: a reference that was read is, under another
tag, read back from its text exactly if that tag has neither.  So an image that is pinned keeps its
host, its project, its repository and its shape.  Of a deployment whose replacements were carried
out no image is replaced again; and this is the deployment that is read of the document once the
replacements were carried out there as a JSON patch. -/
theorem pinned_for_good {resolve : Resolver} (htags : GivesTags resolve) :
    (∀ s tag, Reference.parse ((Reference.parse s).withTag tag).text =
      (Reference.parse s).withTag tag ↔ '/' ∉ tag.toList ∧ ':' ∉ tag.toList) ∧
    (∀ image new, pinned? resolve image = some new →
      ∃ tag, latestTag resolve (.parse image) = .ok tag ∧
        Reference.parse new = (Reference.parse image).withTag tag) ∧
    (∀ d, replacements resolve (carryOut (replacements resolve d) d) = []) ∧
    ∀ levels v d, Deployment.read? levels v = some d → v.hasDistinctKeys = true →
      ∃ v', patch? ((replacements resolve d).map Replacement.toJson) v = some v' ∧
        Deployment.read? levels v' = some (carryOut (replacements resolve d) d) := by
  refine ⟨Reference.parse_text_withTag_iff, fun image new => parse_of_pinned? htags,
    fun d => ?_, fun levels v d hread hkeys => ⟨renewDocument resolve v, ?_, ?_⟩⟩
  · rw [carryOut_replacements]
    exact replacements_renewDeployment htags d
  · have hplain : ∀ r ∈ replacements resolve d, ∀ key ∈ r.path, IsPlain key := by
      intro r hr key hkey
      obtain ⟨p, -, hpath⟩ := mem_of_mem_replacements resolve hr
      exact isPlain_of_mem_path (hpath ▸ hkey)
    rw [patch?_toJson hplain]
    exact replaceAll?_replacements resolve hread hkeys
  · rw [read?_renewDocument, hread, Option.map_some, carryOut_replacements]

set_option maxRecDepth 4000 in
/-- Two images of the sample are replaced, and of what is read of the patched sample none is. -/
theorem sample_settled :
    GivesTags allButOne ∧ ∃ d v' d', Deployment.read? (depthLimit - 2) sample = some d ∧
      (replacements allButOne d).length = 2 ∧
      patch? ((replacements allButOne d).map Replacement.toJson) sample = some v' ∧
      Deployment.read? (depthLimit - 2) v' = some d' ∧ replacements allButOne d' = [] := by
  have htags : GivesTags allButOne := by
    intro host project repo tag h
    rw [allButOne] at h
    split at h
    · cases h
    · cases h
      decide
  obtain ⟨-, -, hagain, hdocument⟩ := pinned_for_good htags
  obtain ⟨d, hread, hlength⟩ : ∃ d, Deployment.read? (depthLimit - 2) sample = some d ∧
      (replacements allButOne d).length = 2 :=
    ⟨_, rfl, by decide⟩
  obtain ⟨v', hpatched, hread'⟩ := hdocument _ sample d hread (by decide)
  exact ⟨htags, d, v', _, hread, hlength, hpatched, hread', hagain d⟩

end ImageRollout.Admission
