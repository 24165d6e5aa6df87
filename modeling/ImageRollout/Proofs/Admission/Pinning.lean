import ImageRollout.Admission.Answer
import ImageRollout.Proofs.Admission.Submission
import ImageRollout.Proofs.Image.Printing
import ImageRollout.Proofs.Json.Patch
import ImageRollout.Proofs.Kubernetes.Reading

/-!
# What pinning makes of a deployment

The images of a new deployment are found in what was read of it, and replaced in the document that
was submitted.  The replacements name the images by their positions, so these must be the same in
both, whatever containers are skipped.

* `replacements_eq`: which images are replaced, and by what.
* `valueAt?_path`: where they stand in the document.
* `replaceAll?_listing`: the replacements for a list of containers, carried out in order.
* `pinned_in_any_order`: what comes of the submitted document.
-/

namespace ImageRollout.Admission

open Kubernetes Json

section Document

variable (resolve : Resolver)

/-- An image under the latest tag of its name, if there is one. -/
def renewed (image : String) : String :=
  match latestTag resolve (.parse image) with
  | .ok latest =>
    if latest = (Image.Reference.parse image).tag then image
    else (Image.Reference.parse image).name ++ ":" ++ latest
  | .error _ => image

/-- A text that is an image, renewed. -/
def renewImage : Json → Json
  | .str image => .str (renewed resolve image)
  | v => v

/-- The items of an array, each changed. -/
def mapItems (f : Json → Json) : Json → Json
  | .arr items => .arr (items.map f)
  | v => v

/-- A list of containers with all images renewed. -/
def renewContainers : Json → Json := mapItems (mapAt (renewImage resolve) ["image"])

/-- A deployment's document with the images of all containers renewed. -/
def renewDocument (document : Json) : Json :=
  mapAt (renewContainers resolve) Listing.containers.path
    (mapAt (renewContainers resolve) Listing.initContainers.path document)

/-- An image is renewed to what it is pinned to, or stays as it is. -/
theorem renewed_eq (image : String) :
    renewed resolve image = (pinned? resolve image).getD image := by
  rw [renewed, pinned?]
  cases latestTag resolve (.parse image) with
  | error failure => rfl
  | ok latest =>
      by_cases h : latest = (Image.Reference.parse image).tag
      · simp [h]
      · simp [h, Image.Reference.text_withTag]

end Document

section Places

/-- A container's place in a deployment. -/
structure Place where
  listing : Listing
  index : Nat
  container : Container

/-- The places of a deployment's containers, first those of the init containers. -/
def places (d : Deployment) : List Place :=
  [Listing.initContainers, .containers].flatMap fun listing =>
    (listing.of d).zipIdx.map fun (container, index) => { listing, index, container }

variable (resolve : Resolver)

namespace Place

/-- The path to the image of the container at the place. -/
def path (p : Place) : List String := imagePath p.listing.key p.index

/-- The image of the container and its latest tag, if it has an image that resolves to another tag
than it has. -/
def due? (p : Place) : Option (String × String) :=
  p.container.image.bind fun image =>
    match latestTag resolve (.parse image) with
    | .ok latest =>
      if latest = (Image.Reference.parse image).tag then none else some (image, latest)
    | .error _ => none

/-- The replacement of the image of the container at the place. -/
def replacement? (p : Place) : Option Replacement :=
  (p.due? resolve).map fun (image, latest) =>
    { path := p.path, value := (Image.Reference.parse image).name ++ ":" ++ latest }

/-- A place is due for the latest tag if there is an image, its tag is resolved, and it has another
one. -/
theorem due?_eq_some_iff {p : Place} {image latest : String} :
    p.due? resolve = some (image, latest) ↔
      p.container.image = some image ∧ latestTag resolve (.parse image) = .ok latest ∧
        latest ≠ (Image.Reference.parse image).tag := by
  rw [due?, Option.bind_eq_some_iff]
  constructor
  · rintro ⟨found, himage, hdue⟩
    split at hdue
    next tag htag =>
      split at hdue
      next => cases hdue
      next hother =>
        cases hdue
        exact ⟨himage, htag, hother⟩
    next => cases hdue
  · rintro ⟨himage, htag, hother⟩
    exact ⟨image, himage, by simp [htag, hother]⟩

/-- A place that is due gets its image under the latest tag, and no other place gets anything. -/
theorem replacement?_eq_some_iff {p : Place} {r : Replacement} :
    p.replacement? resolve = some r ↔ ∃ image latest,
      p.container.image = some image ∧ latestTag resolve (.parse image) = .ok latest ∧
        latest ≠ (Image.Reference.parse image).tag ∧
        r = { path := p.path, value := (Image.Reference.parse image).name ++ ":" ++ latest } := by
  rw [replacement?, Option.map_eq_some_iff]
  constructor
  · rintro ⟨⟨image, latest⟩, hdue, rfl⟩
    obtain ⟨himage, htag, hother⟩ := (due?_eq_some_iff resolve).1 hdue
    exact ⟨image, latest, himage, htag, hother, rfl⟩
  · rintro ⟨image, latest, himage, htag, hother, rfl⟩
    exact ⟨(image, latest), (due?_eq_some_iff resolve).2 ⟨himage, htag, hother⟩, rfl⟩

/-- What is replaced at a place is replaced at its path. -/
theorem path_of_replacement? {p : Place} {r : Replacement} (h : p.replacement? resolve = some r) :
    r.path = p.path := by
  obtain ⟨-, -, rfl⟩ := Option.map_eq_some_iff.1 h
  rfl

end Place

/-- What is replaced of a container in a list is what is replaced at its place. -/
theorem replacement?_eq (l : Listing) (index : Nat) (c : Container) :
    replacement? resolve l.key index c = Place.replacement? resolve ⟨l, index, c⟩ := by
  rw [replacement?, Place.replacement?, Place.due?]
  cases c.image with
  | none => rfl
  | some image =>
      rw [Option.bind_some, Option.bind_some, pinned?]
      cases latestTag resolve (.parse image) with
      | error failure => rfl
      | ok latest =>
          by_cases h : latest = (Image.Reference.parse image).tag
          · simp [h]
          · simp [h, Image.Reference.text_withTag, Place.path]

/-- The replacements of a list of containers are those at its places. -/
theorem containerReplacements_eq (l : Listing) (cs : List Container) :
    containerReplacements resolve l.key cs =
      (cs.zipIdx.map fun (c, index) => (⟨l, index, c⟩ : Place)).filterMap
        (Place.replacement? resolve) := by
  rw [containerReplacements, List.filterMap_map]
  exact congrArg (List.filterMap · _) (funext fun e => replacement?_eq resolve l e.2 e.1)

theorem replacements_eq_append (d : Deployment) :
    replacements resolve d =
      containerReplacements resolve Listing.initContainers.key (Listing.initContainers.of d) ++
        containerReplacements resolve Listing.containers.key (Listing.containers.of d) := by
  rw [replacements]
  cases hpod : d.podSpec? <;>
    simp [Listing.of, hpod, podReplacements, Listing.key, containerReplacements]

/-- **Which images are replaced, and by what.** -/
theorem replacements_eq (d : Deployment) :
    replacements resolve d = (places d).filterMap (Place.replacement? resolve) := by
  rw [replacements_eq_append, containerReplacements_eq, containerReplacements_eq, places]
  simp

/-- A resolver that fails for some hosts, projects and repositories. -/
def failingAt (fails : String → String → String → Option TagSource.Failure) : Resolver :=
  fun host project repo =>
    match fails host project repo with
    | some failure => .error failure
    | none => resolve host project repo

/-- Whether a resolver fails for the image of the container at the place. -/
def Place.isAmong (fails : String → String → String → Option TagSource.Failure) (p : Place) :
    Bool :=
  p.container.image.any fun image =>
    let r := Image.Reference.parse image
    (fails r.hostOrEmpty r.projectOrEmpty r.repo).isSome

/-- Where the resolution fails for some places, these get nothing, and the others what they got
before. -/
theorem replacement?_failingAt (fails : String → String → String → Option TagSource.Failure)
    (p : Place) :
    p.replacement? (failingAt resolve fails) =
      if p.isAmong fails then none else p.replacement? resolve := by
  rw [Place.replacement?, Place.replacement?, Place.due?, Place.due?, Place.isAmong]
  cases p.container.image with
  | none => rfl
  | some image =>
      let r := Image.Reference.parse image
      cases hfails : fails r.hostOrEmpty r.projectOrEmpty r.repo <;>
        simp [latestTag, failingAt, r, hfails]

/-- **A failing resolution affects no container but its own.** -/
theorem replacements_failingAt (fails : String → String → String → Option TagSource.Failure)
    (d : Deployment) :
    replacements (failingAt resolve fails) d =
      ((places d).filter (!·.isAmong fails)).filterMap (Place.replacement? resolve) := by
  rw [replacements_eq, List.filterMap_filter]
  refine congrArg (List.filterMap · _) (funext fun p => ?_)
  rw [replacement?_failingAt]
  cases p.isAmong fails <;> rfl

/-- Different places have different paths. -/
theorem imagePath_injective {l m : Listing} {i j : Nat}
    (h : imagePath l.key i = imagePath m.key j) : l = m ∧ i = j := by
  simp only [imagePath, List.cons.injEq, true_and, and_true] at h
  obtain ⟨hkey, hindex⟩ := h
  refine ⟨?_, toString_injective hindex⟩
  cases l <;> cases m <;> first | rfl | (revert hkey; decide)

/-- No two places of a deployment have one path. -/
theorem nodup_paths (d : Deployment) : ((places d).map Place.path).Nodup := by
  have hlisting (l : Listing) :
      ((l.of d).zipIdx.map fun (c, i) => (⟨l, i, c⟩ : Place)).map Place.path =
        (List.range' 0 (l.of d).length).map (imagePath l.key) := by
    rw [← List.zipIdx_map_snd, List.map_map, List.map_map]
    rfl
  rw [places, List.map_flatMap, List.nodup_flatMap]
  simp only [hlisting]
  refine ⟨fun l _ => ?_, ?_⟩
  · exact List.Nodup.map (fun i j h => (imagePath_injective h).2) (List.nodup_range' 1)
  · refine List.pairwise_pair.2 fun path hinit hcontainer => ?_
    obtain ⟨i, -, rfl⟩ := List.mem_map.1 hinit
    obtain ⟨j, -, hsame⟩ := List.mem_map.1 hcontainer
    cases (imagePath_injective hsame).1

/-- The path of a replacement is that of a container's place. -/
theorem mem_of_mem_replacements {d : Deployment} {r : Replacement}
    (h : r ∈ replacements resolve d) : ∃ p ∈ places d, r.path = p.path := by
  rw [replacements_eq] at h
  obtain ⟨p, hp, hr⟩ := List.mem_filterMap.1 h
  exact ⟨p, hp, Place.path_of_replacement? resolve hr⟩

/-- No two replacements are at one path. -/
theorem nodup_replacements (d : Deployment) :
    ((replacements resolve d).map (·.path)).Nodup := by
  have hpart : ∀ ps : List Place,
      ((ps.filterMap (Place.replacement? resolve)).map (·.path)).Sublist (ps.map Place.path) := by
    intro ps
    induction ps with
    | nil => exact List.Sublist.refl []
    | cons p rest ih =>
        cases hp : p.replacement? resolve with
        | none =>
            rw [List.filterMap_cons_none hp]
            exact ih.cons _
        | some r =>
            rw [List.filterMap_cons_some hp, List.map_cons, List.map_cons,
              Place.path_of_replacement? resolve hp]
            exact ih.cons_cons _
  rw [replacements_eq]
  exact (nodup_paths d).sublist (hpart (places d))

/-- No part of a place's path needs to be escaped. -/
theorem isPlain_of_mem_path {p : Place} {key : String} (h : key ∈ p.path) : IsPlain key := by
  have hlisting : IsPlain p.listing.key := by cases p.listing <;> decide
  simp only [Place.path, imagePath, List.mem_cons, List.not_mem_nil, or_false] at h
  rcases h with rfl | rfl | rfl | rfl | rfl | rfl
  · decide
  · decide
  · decide
  · exact hlisting
  · exact isPlain_toString p.index
  · decide

/-- At every place there is the container of the place. -/
theorem mem_places {d : Deployment} {p : Place} (h : p ∈ places d) :
    (p.listing.of d)[p.index]? = some p.container := by
  obtain ⟨l, -, hmem⟩ := List.mem_flatMap.1 h
  obtain ⟨⟨c, i⟩, hitem, rfl⟩ := List.mem_map.1 hmem
  exact List.mem_zipIdx_iff_getElem?.1 hitem

/-- Items at one position of related lists are related. -/
theorem getElem?_of_forall₂ {α β : Type} {R : α → β → Prop} {as : List α} {bs : List β}
    (h : List.Forall₂ R as bs) {i : Nat} {b : β} (hb : bs[i]? = some b) :
    ∃ a, as[i]? = some a ∧ R a b := by
  induction h generalizing i with
  | nil => cases hb
  | cons hfirst _ ih =>
      cases i with
      | zero =>
          cases hb
          exact ⟨_, rfl, hfirst⟩
      | succ i => exact ih hb

/-- **The path to a container's image leads to it in the document.** -/
theorem valueAt?_path {levels : Nat} {v : Json} {d : Deployment}
    (h : Deployment.read? levels v = some d) (hkeys : v.hasDistinctKeys = true) {p : Place}
    (hp : p ∈ places d) {image : String} (himage : p.container.image = some image) :
    valueAt? p.path v = some (.str image) := by
  have hc := mem_places hp
  rcases lists_of_read h hkeys p.listing with ⟨hnone, -⟩ | ⟨items, levels', hitems, hread⟩
  · rw [hnone] at hc
    cases hc
  · obtain ⟨item, hitem, hcontainer⟩ := getElem?_of_forall₂ hread hc
    have hitemAt : valueAt? [toString p.index] (.arr items) = some item := by
      have hposition := lookup_positions 0 p.index items
      rw [Nat.zero_add] at hposition
      rw [valueAt?_key, parts, hposition, hitem]
    have hitemsKeys := hasDistinctKeys_of_valueAt? hkeys hitems
    have hitemKeys := hasDistinctKeys_of_valueAt? hitemsKeys hitemAt
    rcases image_of_read hcontainer hitemKeys with ⟨hnone, -⟩ | ⟨text, htext, hsome⟩
    · rw [hnone] at himage
      cases himage
    · rw [hsome] at himage
      cases himage
      have hpath : p.path = p.listing.path ++ ([toString p.index] ++ ["image"]) := rfl
      rw [hpath, valueAt?_append, hitems, Option.bind_some, valueAt?_append, hitemAt,
        Option.bind_some, htext]

end Places

section Carried

variable (resolve : Resolver)

/-- A replacement by the path to what is replaced and the new value. -/
def Replacement.edit (r : Replacement) : List String × Json := (r.path, .str r.value)

/-- The replacement for a container as seen from the array of which it is an item. -/
def itemEdit? (e : Container × Nat) : Option (List String × Json) :=
  (e.1.image.bind (pinned? resolve)).map fun value => ([toString e.2, "image"], .str value)

/-- The replacements of a list of containers are edits of its items, below the path of the list. -/
theorem edits_containerReplacements (l : Listing) (cs : List Container) :
    (containerReplacements resolve l.key cs).map Replacement.edit =
      (cs.zipIdx.filterMap (itemEdit? resolve)).map fun e => (l.path ++ e.1, e.2) := by
  rw [containerReplacements, List.map_filterMap, List.map_filterMap]
  refine congrArg (List.filterMap · _) (funext fun (c, index) => ?_)
  simp [replacement?, itemEdit?, Function.comp_def, Replacement.edit, imagePath, Listing.path]

section Item

variable {resolve} {levels : Nat} {item : Json} {c : Container}

/-- A container that gets no replacement has nothing to renew. -/
theorem renew_eq_self (h : Container.read? levels item = some c)
    (hkeys : item.hasDistinctKeys = true) (hpinned : c.image.bind (pinned? resolve) = none) :
    mapAt (renewImage resolve) ["image"] item = item := by
  refine mapAt_eq_self hkeys fun v hv => ?_
  rcases image_of_read h hkeys with ⟨-, hnone | hnull⟩ | ⟨image, himage, hsome⟩
  · rw [hnone] at hv
    cases hv
  · rw [hnull] at hv
    cases hv
    rfl
  · rw [himage] at hv
    cases hv
    rw [hsome, Option.bind_some] at hpinned
    rw [renewImage, renewed_eq, hpinned]
    rfl

/-- A container's replacement renews its image. -/
theorem changeAt?_image (h : Container.read? levels item = some c)
    (hkeys : item.hasDistinctKeys = true) {value : String}
    (hpinned : c.image.bind (pinned? resolve) = some value) :
    changeAt? (fun _ => some (.str value)) ["image"] item =
      some (mapAt (renewImage resolve) ["image"] item) := by
  rcases image_of_read h hkeys with ⟨hnone, -⟩ | ⟨image, himage, hsome⟩
  · rw [hnone] at hpinned
    cases hpinned
  · rw [hsome, Option.bind_some] at hpinned
    apply changeAt?_eq_mapAt hkeys himage
    rw [renewImage, renewed_eq, hpinned]
    rfl

end Item

/-- An item's image replaced, in the item and in the array. -/
theorem changeAt?_item (before : List Json) (item : Json) (after : List Json) (value : Json)
    {item' : Json} (h : changeAt? (fun _ => some value) ["image"] item = some item') :
    changeAt? (fun _ => some value) [toString before.length, "image"]
        (.arr (before ++ item :: after)) =
      some (.arr (before ++ item' :: after)) := by
  have hposition := changePart?_positions (changeAt? (fun _ => some value) ["image"]) 0 before item
    after
  rw [Nat.zero_add, h] at hposition
  rw [changeAt?, parts, hposition, Option.map_some]
  exact congrArg (fun items => some (Json.arr items)) (map_snd_positions 0 _)

/-- The replacements for containers, carried out in order on the array of their documents. -/
theorem replaceAll?_items {levels : Nat} {items : List Json} {cs : List Container}
    (hread : List.Forall₂ (fun item c => Container.read? levels item = some c) items cs)
    (hkeys : ∀ item ∈ items, item.hasDistinctKeys = true) (before : List Json) :
    replaceAll? ((cs.zipIdx before.length).filterMap (itemEdit? resolve))
        (.arr (before ++ items)) =
      some (.arr (before ++ items.map (mapAt (renewImage resolve) ["image"]))) := by
  induction hread generalizing before with
  | nil => rfl
  | @cons item c items cs hfirst _ ih =>
      obtain ⟨hitem, hrest⟩ := List.forall_mem_cons.1 hkeys
      -- With the first item settled, the others stand behind one item more.
      have hlater (item' : Json) := ih hrest (before ++ [item'])
      simp only [List.length_append, List.length_singleton, List.append_assoc,
        List.singleton_append] at hlater
      rw [List.zipIdx_cons, List.map_cons]
      cases hpinned : c.image.bind (pinned? resolve) with
      | none =>
          rw [List.filterMap_cons_none (by simp [itemEdit?, hpinned]),
            renew_eq_self hfirst hitem hpinned]
          exact hlater item
      | some value =>
          rw [List.filterMap_cons_some (b := ([toString before.length, "image"], .str value))
              (by simp [itemEdit?, hpinned]), replaceAll?_cons,
            changeAt?_item before item items _ (changeAt?_image hfirst hitem hpinned)]
          exact hlater _

/-- **The replacements for a list of containers, carried out in order.**  They renew its images. -/
theorem replaceAll?_listing {v : Json} {d : Deployment} (hkeys : v.hasDistinctKeys = true)
    (l : Listing)
    (hlists : (l.of d = [] ∧ MissingAt l.path v) ∨
      ∃ items levels, valueAt? l.path v = some (.arr items) ∧
        List.Forall₂ (fun item c => Container.read? levels item = some c) items (l.of d)) :
    replaceAll? ((containerReplacements resolve l.key (l.of d)).map Replacement.edit) v =
      some (mapAt (renewContainers resolve) l.path v) := by
  rcases hlists with ⟨hnone, hmissing⟩ | ⟨items, levels, hitems, hread⟩
  · have hsame : mapAt (renewContainers resolve) l.path v = v := by
      refine mapAt_eq_self hkeys fun w hw => ?_
      rcases hmissing with hnothing | hnull
      · rw [hnothing] at hw
        cases hw
      · rw [hnull] at hw
        cases hw
        rfl
    rw [hnone, hsame]
    rfl
  · have hitemKeys : ∀ item ∈ items, item.hasDistinctKeys = true :=
      (itemsHaveDistinctKeys_iff items).1 (hasDistinctKeys_of_valueAt? hkeys hitems)
    have hcarried := replaceAll?_items resolve hread hitemKeys []
    rw [edits_containerReplacements, replaceAll?_below hitems]
    exact changeAt?_eq_mapAt hkeys hitems hcarried

/-- Renewed containers repeat no key. -/
theorem hasDistinctKeys_renewContainers {v : Json} (h : v.hasDistinctKeys = true) :
    (renewContainers resolve v).hasDistinctKeys = true := by
  have himage (w : Json) (hw : w.hasDistinctKeys = true) :
      (renewImage resolve w).hasDistinctKeys = true := by
    cases w with
    | str image => rfl
    | _ => exact hw
  cases v with
  | arr items =>
      refine (itemsHaveDistinctKeys_iff _).2 fun item hitem => ?_
      obtain ⟨old, hold, rfl⟩ := List.mem_map.1 hitem
      exact hasDistinctKeys_mapAt ((itemsHaveDistinctKeys_iff items).1 h old hold) himage
  | _ => exact h

/-- The replacements for a deployment, carried out in order. -/
theorem replaceAll?_replacements {levels : Nat} {v : Json} {d : Deployment}
    (h : Deployment.read? levels v = some d) (hkeys : v.hasDistinctKeys = true) :
    replaceAll? ((replacements resolve d).map Replacement.edit) v =
      some (renewDocument resolve v) := by
  have hne : Listing.initContainers.path ≠ Listing.containers.path := by decide
  have hinits := replaceAll?_listing resolve hkeys .initContainers
    (lists_of_read h hkeys .initContainers)
  -- The init containers' images are renewed then, and the other containers as they were.
  have hothers := lists_of_read h hkeys .containers
  rw [MissingAt, ← valueAt?_mapAt_of_ne hne rfl (renewContainers resolve) v] at hothers
  have hcontainers := replaceAll?_listing resolve
    (hasDistinctKeys_mapAt hkeys fun w => hasDistinctKeys_renewContainers resolve) .containers
    hothers
  rw [replacements_eq_append, List.map_append, replaceAll?_append, hinits, Option.bind_some,
    hcontainers]
  rfl

/-- The operations of a patch do what their replacements say. -/
theorem patch?_toJson {rs : List Replacement} (h : ∀ r ∈ rs, ∀ key ∈ r.path, IsPlain key)
    (document : Json) :
    patch? (rs.map Replacement.toJson) document =
      replaceAll? (rs.map Replacement.edit) document := by
  induction rs generalizing document with
  | nil => rfl
  | cons r rest ih =>
      obtain ⟨hfirst, hrest⟩ := List.forall_mem_cons.1 h
      have hpath : pointerPath? r.pointer = some r.path := pointerPath?_join hfirst
      have hoperation : operate? r.toJson document =
          changeAt? (fun _ => some (.str r.value)) r.path document := by
        simp [operate?, Replacement.toJson, get?, members?, List.lookup_cons, hpath]
      rw [List.map_cons, List.map_cons, patch?, List.foldlM_cons, hoperation, replaceAll?_cons]
      exact congrArg _ (funext (ih hrest))

end Carried

/-- **What pinning makes of a deployment.**  Let a review submit a deployment that is to be created,
as a document that repeats no key, and let images resolve in any way.  The answer replaces, in the
order of the init containers and then of the other containers, the image of every container that has
one which resolves to another tag than it has, and no other; so a resolution that fails affects no
container but its own.  The paths are all different, and each leads to the container's image in the
document.  Carried out as a JSON patch, in any order, the replacements give the document with all
images renewed: their names stay as they were written and the tags are the latest. -/
theorem pinned_in_any_order (resolve : Resolver) {v : Json} {review : Review} {request : Request}
    (hreview : Review.ofJson? v = some review) (hrequest : review.request = some request)
    (hcreate : request.operation = .create) {members : List (String × Json)}
    (hsubmits : Submits v (.obj members)) (hkeys : (Json.obj members).hasDistinctKeys = true) :
    ∃ d, request.object = some d ∧
      Deployment.read? (depthLimit - 2) (.obj members) = some d ∧
      let pins := replacements resolve d
      (∀ body, Json.parse? body = some v →
        answer resolve body = .allowed review.apiVersion review.kind request.uid pins) ∧
      pins = (places d).filterMap (Place.replacement? resolve) ∧
      (∀ p r, Place.replacement? resolve p = some r ↔ ∃ image latest,
        p.container.image = some image ∧ latestTag resolve (.parse image) = .ok latest ∧
        latest ≠ (Image.Reference.parse image).tag ∧
        r = { path := p.path, value := (Image.Reference.parse image).name ++ ":" ++ latest }) ∧
      (∀ fails, replacements (failingAt resolve fails) d =
        ((places d).filter (!·.isAmong fails)).filterMap (Place.replacement? resolve)) ∧
      (pins.map (·.path)).Nodup ∧
      (∀ p ∈ places d, ∀ image, p.container.image = some image →
        valueAt? p.path (.obj members) = some (.str image) ∧
          (Image.Reference.parse image).text = image) ∧
      ∀ order : List Replacement, order.Perm pins →
        patch? (order.map Replacement.toJson) (.obj members) =
          some (renewDocument resolve (.obj members)) := by
  obtain ⟨d, hobject, hread⟩ := object_of_review hreview hrequest hsubmits
  refine ⟨d, hobject, hread, ?_⟩
  intro pins
  have hnodup : (pins.map (·.path)).Nodup := nodup_replacements resolve d
  refine ⟨?_, replacements_eq resolve d, fun p r => Place.replacement?_eq_some_iff resolve,
    fun fails => replacements_failingAt resolve fails d, hnodup, fun p hp image himage =>
      ⟨valueAt?_path hread hkeys hp himage, Image.Reference.text_parse image⟩, ?_⟩
  · intro body hbody
    rw [answer, decode_of_parse hbody hreview hrequest]
    simp only [Request.replacements, hcreate, hobject]
    rfl
  · intro order horder
    have hplaces : ∀ r ∈ pins, ∃ p ∈ places d, r.path = p.path := fun r =>
      mem_of_mem_replacements resolve
    have hplain : ∀ r ∈ order, ∀ key ∈ r.path, IsPlain key := by
      intro r hr key hkey
      obtain ⟨p, -, hpath⟩ := hplaces r (horder.mem_iff.1 hr)
      exact isPlain_of_mem_path (hpath ▸ hkey)
    have hdepth : ∀ e ∈ pins.map Replacement.edit, e.1.length = 6 := by
      intro e he
      obtain ⟨r, hr, rfl⟩ := List.mem_map.1 he
      obtain ⟨p, -, hpath⟩ := hplaces r hr
      exact congrArg List.length hpath
    have hdistinct : ((pins.map Replacement.edit).map (·.1)).Nodup := by
      rw [List.map_map]
      exact hnodup
    rw [patch?_toJson hplain, replaceAll?_perm (horder.map Replacement.edit) hdistinct hdepth]
    exact replaceAll?_replacements resolve hread hkeys

/-- A deployment with an init container and three other containers, of which one has no image. -/
def sample : Json :=
  .obj [("spec", .obj [("template", .obj [("spec", .obj [
    ("initContainers", .arr [.obj [("name", .str "init"), ("image", .str "hub/team/init")]]),
    ("containers", .arr [.obj [("name", .str "sidecar")],
      .obj [("name", .str "gone"), ("image", .str "hub/team/gone:1")],
      .obj [("image", .str "hub/team/web:1"), ("name", .str "web")]])])])])]

/-- A record of three texts. -/
def triple (keys : List String) : Json := .obj (keys.map fun key => (key, .str ""))

/-- A review of a deployment that is to be created. -/
def creation (document : Json) : Json :=
  .obj [("apiVersion", .str "admission.k8s.io/v1"), ("kind", .str "AdmissionReview"),
    ("request", .obj [("uid", .str "1"), ("kind", triple ["group", "version", "kind"]),
      ("resource", triple ["group", "version", "resource"]), ("operation", .str "CREATE"),
      ("userInfo", .obj []), ("object", document)])]

/-- The latest tag of everything is 2, but for one repository that is not found. -/
def allButOne : Resolver := fun _ project repo =>
  if repo = "gone" then .error (.repoNotFound project repo) else .ok "2"

set_option maxRecDepth 4000 in
/-- Two images of the sample are renewed, each where it stands, though the second operation is
carried out first. -/
theorem sample_pinned :
    ∃ d, Deployment.read? (depthLimit - 2) sample = some d ∧
      (replacements allButOne d).map (fun r => (r.pointer, r.value)) =
        [("/spec/template/spec/initContainers/0/image", "hub/team/init:2"),
          ("/spec/template/spec/containers/2/image", "hub/team/web:2")] ∧
      patch? ((replacements allButOne d).reverse.map Replacement.toJson) sample =
        some (renewDocument allButOne sample) := by
  obtain ⟨review, request, hreview, hrequest, hcreate⟩ : ∃ review request,
      Review.ofJson? (creation sample) = some review ∧ review.request = some request ∧
        request.operation = .create :=
    ⟨_, _, rfl, rfl, rfl⟩
  have hsubmits : Submits (creation sample) sample := ⟨_, _, _, rfl, rfl, rfl, rfl⟩
  obtain ⟨d, -, hread, -, -, -, -, -, -, hpatched⟩ :=
    pinned_in_any_order allButOne hreview hrequest hcreate hsubmits (by decide)
  have hpins : (Deployment.read? (depthLimit - 2) sample).map (fun d =>
      (replacements allButOne d).map fun r => (r.pointer, r.value)) =
        some [("/spec/template/spec/initContainers/0/image", "hub/team/init:2"),
          ("/spec/template/spec/containers/2/image", "hub/team/web:2")] := by
    decide
  refine ⟨d, hread, ?_, hpatched _ (List.reverse_perm _)⟩
  rw [show sample = .obj _ from rfl, hread] at hpins
  exact Option.some.inj hpins

end ImageRollout.Admission
