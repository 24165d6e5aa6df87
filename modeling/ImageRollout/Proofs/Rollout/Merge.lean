import ImageRollout.Rollout.Plan

/-!
# What a patch does to a deployment

An API server carries a patch out by a strategic merge: maps merge key by key, containers by name,
and anything else takes the place of what was there.  Patches never take anything out.

* `Patch.apply`: what comes of a deployment.
* `merge_toJson`: that is what the merge of the patch's document makes of the pod template's.
-/

namespace ImageRollout.Rollout

open Kubernetes

section Documents

/-- The members of an object with one of them changed; it is added if it is not there. -/
def putMember (key : String) (f : Json → Json) : List (String × Json) → List (String × Json)
  | [] => [(key, f .null)]
  | (k, v) :: rest => if k = key then (k, f v) :: rest else (k, v) :: putMember key f rest

/-- What an object calls itself. -/
def nameOf? (v : Json) : Option String := (v.members?.bind (List.lookup "name")).bind Json.text?

/-- A list of objects with the one of a name changed; it is added if it is not there. -/
def putNamed (name : Option String) (f : Json → Json) : List Json → List Json
  | [] => [f .null]
  | v :: rest => if nameOf? v = name then f v :: rest else v :: putNamed name f rest

mutual

/-- The strategic merge of a patch into the value of a key. -/
def mergeAt (key : String) : Json → Json → Json
  | .obj ps, v => .obj (mergeMembers ps (v.members?.getD []))
  | .arr ps, v =>
    if key = "containers" then .arr (mergeNamed ps (v.items?.getD [])) else .arr ps
  | p, _ => p

/-- The merge of objects, key by key. -/
def mergeMembers : List (String × Json) → List (String × Json) → List (String × Json)
  | [], ms => ms
  | (key, p) :: rest, ms => mergeMembers rest (putMember key (mergeAt key p) ms)

/-- The merge of lists of objects, by name. -/
def mergeNamed : List Json → List Json → List Json
  | [], vs => vs
  | p :: rest, vs => mergeNamed rest (putNamed (nameOf? p) (mergeAt "" p) vs)

end

/-- The strategic merge of a patch into a document. -/
def merge (patch document : Json) : Json := mergeAt "" patch document

end Documents

/-- A map of texts with a value for a key, in its place if it has one. -/
def setText (key value : String) : TextMap → TextMap
  | [] => [(key, value)]
  | (k, v) :: rest => if k = key then (k, value) :: rest else (k, v) :: setText key value rest

/-- Containers with an image for one of them, which is added if it is not there. -/
def setImage (change : String × String) : List Container → List Container
  | [] => [{ name := change.1, image := some change.2 }]
  | c :: rest =>
    if c.name = change.1 then { c with image := some change.2 } :: rest
    else c :: setImage change rest

/-- Containers with images for some of them. -/
def setImages (changes : List (String × String)) (cs : List Container) : List Container :=
  changes.foldl (fun cs change => setImage change cs) cs

namespace Patch

/-- What comes of a pod template. -/
def applyTemplate : Patch → PodTemplate → PodTemplate
  | restart time, t =>
    let m := t.metadata.getD {}
    { t with
      metadata := some
        { m with annotations := some (setText restartKey time.text (m.annotations.getD [])) } }
  | images changes, t =>
    let s := t.spec.getD {}
    { t with spec := some { s with containers := setImages changes s.containers } }

/-- What comes of a deployment. -/
def apply (p : Patch) (d : Deployment) : Deployment :=
  let s := d.spec.getD {}
  { d with spec := some { s with template := p.applyTemplate s.template } }

/-- Whether a pod template has all that the patch is to change.  Where it lacks something, the merge
adds that behind everything else. -/
def Meets (t : PodTemplate) : Patch → Prop
  | restart _ => ∃ m, t.metadata = some m ∧ m.annotations.isSome
  | images changes => ∃ s, t.spec = some s ∧
      ∀ c ∈ s.containers, c.name ∈ changes.map (·.1) → c.image.isSome

end Patch

/-- To put a text into an object of texts is to set it in the map. -/
theorem putMember_texts (key value : String) (m : TextMap) :
    putMember key (fun _ => .str value) (m.map fun e => (e.1, .str e.2)) =
      (setText key value m).map fun e => (e.1, .str e.2) := by
  induction m with
  | nil => rfl
  | cons e rest ih =>
      obtain ⟨k, v⟩ := e
      rw [List.map_cons, putMember, setText, ih]
      split <;> rfl

/-- A container's document, merged. -/
theorem mergeAt_container (change : String × String) {c : Container} (himage : c.image.isSome) :
    mergeAt "" (.obj [("name", .str change.1), ("image", .str change.2)]) c.toJson =
      ({ c with name := change.1, image := some change.2 } : Container).toJson := by
  obtain ⟨image, himage⟩ := Option.isSome_iff_exists.1 himage
  simp [mergeAt, mergeMembers, putMember, Container.toJson, member, himage, Json.members?]

/-- A container's document tells its name. -/
theorem nameOf?_container (c : Container) : nameOf? c.toJson = some c.name := rfl

/-- One of the containers' documents, merged by name. -/
theorem putNamed_container (change : String × String) {cs : List Container}
    (himage : ∀ c ∈ cs, c.name = change.1 → c.image.isSome) :
    putNamed (some change.1)
        (mergeAt "" (.obj [("name", .str change.1), ("image", .str change.2)]))
        (cs.map Container.toJson) =
      (setImage change cs).map Container.toJson := by
  induction cs with
  | nil => rfl
  | cons c rest ih =>
      rw [List.map_cons, putNamed, setImage, nameOf?_container]
      by_cases hname : c.name = change.1
      · rw [if_pos (by rw [hname]), if_pos hname, List.map_cons,
          mergeAt_container change (himage c List.mem_cons_self hname), ← hname]
      · rw [if_neg (by simpa using hname), if_neg hname, List.map_cons,
          ih fun c hc => himage c (List.mem_cons_of_mem _ hc)]

/-- Setting one image leaves no container without one that had one. -/
theorem isSome_image_setImage {change : String × String} {cs : List Container}
    {P : String → Prop} (h : ∀ c ∈ cs, P c.name → c.image.isSome) :
    ∀ c ∈ setImage change cs, P c.name → c.image.isSome := by
  induction cs with
  | nil =>
      intro c hc _
      rw [List.mem_singleton.1 hc]
      rfl
  | cons k rest ih =>
      intro c hc hP
      rw [setImage] at hc
      split at hc
      · rcases List.mem_cons.1 hc with rfl | hc
        · rfl
        · exact h c (List.mem_cons_of_mem _ hc) hP
      · rcases List.mem_cons.1 hc with rfl | hc
        · exact h c List.mem_cons_self hP
        · exact ih (fun c hc => h c (List.mem_cons_of_mem _ hc)) c hc hP

/-- The containers' documents, merged by name. -/
theorem mergeNamed_containers {changes : List (String × String)} {cs : List Container}
    (himage : ∀ c ∈ cs, c.name ∈ changes.map (·.1) → c.image.isSome) :
    mergeNamed (changes.map fun change =>
        .obj [("name", .str change.1), ("image", .str change.2)]) (cs.map Container.toJson) =
      (setImages changes cs).map Container.toJson := by
  induction changes generalizing cs with
  | nil => rfl
  | cons change rest ih =>
      have hfirst : ∀ c ∈ cs, c.name = change.1 → c.image.isSome := by
        intro c hc hname
        exact himage c hc (by simp [hname])
      have hrest : ∀ c ∈ setImage change cs, c.name ∈ rest.map (·.1) → c.image.isSome :=
        isSome_image_setImage fun c hc hname => himage c hc (List.mem_cons_of_mem _ hname)
      rw [List.map_cons, mergeNamed]
      change mergeNamed _ (putNamed (some change.1) _ _) = _
      rw [putNamed_container change hfirst, ih hrest]
      rfl

/-- Members before the changed one stay as they are, and so do those behind it. -/
theorem putMember_append {key : String} {f : Json → Json} {before after : List (String × Json)}
    {v : Json} (h : ∀ e ∈ before, e.1 ≠ key) :
    putMember key f (before ++ (key, v) :: after) = before ++ (key, f v) :: after := by
  induction before with
  | nil => simp [putMember]
  | cons e rest ih =>
      obtain ⟨k, w⟩ := e
      rw [List.cons_append, putMember, if_neg (h _ List.mem_cons_self),
        ih fun e he => h e (List.mem_cons_of_mem _ he), List.cons_append]

/-- The merge of one field into an object that has it. -/
theorem mergeAt_field {outer key : String} {p v : Json} {before after : List (String × Json)}
    (h : ∀ e ∈ before, e.1 ≠ key) :
    mergeAt outer (.obj [(key, p)]) (.obj (before ++ (key, v) :: after)) =
      .obj (before ++ (key, mergeAt key p v) :: after) := by
  simp only [mergeAt, mergeMembers, Json.members?, Option.getD_some]
  rw [putMember_append h]

/-- A field that is written under one name is not found under another. -/
theorem ne_of_mem_member {α : Type} {name key : String} {write : α → Json} {value : Option α}
    {e : String × Json} (he : e ∈ member name write value) (h : name ≠ key) : e.1 ≠ key := by
  cases value with
  | none => cases he
  | some v =>
      rw [List.mem_singleton.1 he]
      exact h

/-- The annotations stand in the metadata's document behind members of other keys. -/
theorem exists_toJson_metadata (m : Metadata) : ∃ others : List (String × Json),
    (∀ e ∈ others, e.1 ≠ "annotations") ∧ ∀ annotations,
      ({ m with annotations := some annotations } : Metadata).toJson =
        .obj (others ++ ("annotations", TextMap.toJson annotations) :: m.rest) := by
  refine ⟨member "name" .str m.name ++ member "generateName" .str m.generateName ++
    member "namespace" .str m.namespaceName ++ member "uid" .str m.uid ++
    member "resourceVersion" .str m.resourceVersion ++
    member "creationTimestamp" .str m.creationTimestamp ++
    member "managedFields" id m.managedFields ++ member "labels" TextMap.toJson m.labels,
    ?_, fun annotations => ?_⟩
  · intro e he
    simp only [List.mem_append] at he
    rcases he with ((((((he | he) | he) | he) | he) | he) | he) | he
    all_goals exact ne_of_mem_member he (by decide)
  · simp [Metadata.toJson, member]

/-- **The merge of the documents is the effect of the patch**, where the pod template has what is to
be changed. -/
theorem merge_toJson {p : Patch} {t : PodTemplate} (h : p.Meets t) :
    merge p.toJson (Patch.ofTemplate t.toJson) = Patch.ofTemplate (p.applyTemplate t).toJson := by
  have hmerge : ∀ v, merge (Patch.ofTemplate v) (Patch.ofTemplate t.toJson) =
      Patch.ofTemplate (mergeAt "template" v t.toJson) := by
    intro v
    simp [merge, Patch.ofTemplate, mergeAt, mergeMembers, putMember, Json.members?]
  cases p with
  | restart time =>
      obtain ⟨m, hm, hannotations⟩ := h
      obtain ⟨a, ha⟩ := Option.isSome_iff_exists.1 hannotations
      obtain ⟨others, hothers, hdocument⟩ := exists_toJson_metadata m
      have ht : ∀ annotations : TextMap,
          ({ t with
            metadata := some { m with annotations := some annotations } } : PodTemplate).toJson =
          .obj ([] ++
            ("metadata", .obj (others ++ ("annotations", annotations.toJson) :: m.rest)) ::
            member "spec" PodSpec.toJson t.spec) := by
        intro annotations
        rw [← hdocument]
        rfl
      have hnow : t = { t with metadata := some { m with annotations := some a } } := by
        rw [← ha, ← hm]
      have hlater : Patch.applyTemplate (.restart time) t =
          { t with
            metadata := some
              { m with annotations := some (setText restartKey time.text a) } } := by
        simp [Patch.applyTemplate, hm, ha]
      have htexts : mergeAt "annotations" (.obj [(restartKey, .str time.text)]) a.toJson =
          (setText restartKey time.text a).toJson := by
        simp only [mergeAt, mergeMembers, TextMap.toJson, Json.members?, Option.getD_some]
        rw [← putMember_texts]
      rw [Patch.toJson, hmerge, hlater, ht]
      rw [hnow, ht, mergeAt_field (by simp), mergeAt_field hothers, htexts]
  | images changes =>
      obtain ⟨s, hs, himage⟩ := h
      have hbefore : ∀ e ∈ member "metadata" Metadata.toJson t.metadata, e.1 ≠ "spec" :=
        fun e he => ne_of_mem_member he (by decide)
      have hinner : ∀ e ∈ member "initContainers"
          (fun cs : List Container => Json.arr (cs.map Container.toJson)) s.initContainers,
          e.1 ≠ "containers" :=
        fun e he => ne_of_mem_member he (by decide)
      have ht : t.toJson = .obj (member "metadata" Metadata.toJson t.metadata ++
          [("spec", s.toJson)]) := by rw [PodTemplate.toJson, hs]; rfl
      have hlist : mergeAt "containers"
          (.arr (changes.map fun change =>
            .obj [("name", .str change.1), ("image", .str change.2)]))
          (.arr (s.containers.map Container.toJson)) =
          .arr ((setImages changes s.containers).map Container.toJson) := by
        rw [← mergeNamed_containers himage]
        rfl
      rw [Patch.toJson, hmerge, ht, mergeAt_field hbefore, PodSpec.toJson, mergeAt_field hinner,
        hlist, Patch.applyTemplate, hs, PodTemplate.toJson]
      rfl

end ImageRollout.Rollout
