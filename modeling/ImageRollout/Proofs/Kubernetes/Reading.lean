import ImageRollout.Kubernetes.Deployment
import ImageRollout.Proofs.Json.Paths

/-!
# Where a deployment's containers stand

A deployment is read from a document, and in it every container from a part of the document.  Where
the document repeats no key, the containers of a deployment are the items of two arrays, in order,
and the image of a container is the text that stands under its key.

* `lists_of_read`: the documents of a deployment's containers.
* `image_of_read`: the document of a container's image.
-/

namespace ImageRollout.Kubernetes

open Json

/-- Nothing stands at a path, or null does. -/
def MissingAt (path : List String) (v : Json) : Prop :=
  valueAt? path v = none ∨ valueAt? path v = some .null

/-- What is missing below a value is missing below its path. -/
theorem missingAt_append {p q : List String} {v w : Json} (hw : valueAt? p v = some w)
    (h : MissingAt q w) : MissingAt (p ++ q) v := by
  rw [MissingAt, valueAt?_append, hw]
  exact h

/-- Where nothing stands, nothing stands below it. -/
theorem missingAt_below {p : List String} {v : Json} (h : MissingAt p v) (key : String)
    (q : List String) : MissingAt (p ++ key :: q) v := by
  rw [MissingAt, valueAt?_append]
  rcases h with hnone | hnull
  · exact .inl (by rw [hnone]; rfl)
  · exact .inl (by rw [hnull]; rfl)

/-- Where no key stands twice, the values of a key are the one that is looked up. -/
theorem filter_key {members : List (String × Json)} (h : (members.map (·.1)).Nodup)
    (name : String) :
    (members.filter (·.1 == name)).map (·.2) = (List.lookup name members).toList := by
  induction members with
  | nil => rfl
  | cons m rest ih =>
      obtain ⟨key, v⟩ := m
      obtain ⟨hfresh, hrest⟩ := List.nodup_cons.1 h
      rw [Table.lookup_cons]
      by_cases hkey : name = key
      · have hothers : rest.filter (·.1 == name) = [] := by
          apply List.filter_eq_nil_iff.2
          intro q hq heq
          apply hfresh
          change key ∈ rest.map (·.1)
          rw [← hkey, ← beq_iff_eq.1 heq]
          exact List.mem_map_of_mem hq
        rw [List.filter_cons_of_pos (by simp [hkey]), hothers, if_pos hkey]
        rfl
      · rw [List.filter_cons_of_neg (by simpa using Ne.symm hkey), ih hrest, if_neg hkey]

/-- Where no key is repeated, a field is read from what stands under its name. -/
theorem of_field? {α : Type} {v : Json} (hkeys : v.hasDistinctKeys = true)
    {members : List (String × Json)} (hmembers : v.members? = some members) {name : String}
    {read? : Json → Option α} {value : Option α}
    (hread : field? members name read? = some value) :
    (value = none ∧ MissingAt [name] v) ∨
      ∃ w a, valueAt? [name] v = some w ∧ read? w = some a ∧ value = some a := by
  obtain rfl : v = .obj members := by
    cases v with
    | obj ms => exact congrArg _ (Option.some.inj hmembers)
    | _ => cases hmembers
  have hnodup : (members.map (·.1)).Nodup := ((hasDistinctKeys_iff _).1 hkeys).1
  rw [MissingAt, valueAt?_key, parts]
  rw [field?] at hread
  simp only [filter_key hnodup] at hread
  cases hlookup : List.lookup name members with
  | none =>
      rw [hlookup] at hread
      cases hread
      exact .inl ⟨rfl, .inl rfl⟩
  | some w =>
      rw [hlookup] at hread
      cases w with
      | null =>
          cases hread
          exact .inl ⟨rfl, .inr rfl⟩
      | _ =>
          obtain ⟨a, ha, hvalue⟩ : ∃ a, read? _ = some a ∧ some a = value := by
            simpa [Option.bind_eq_some_iff] using hread
          exact .inr ⟨_, a, rfl, ha, hvalue.symm⟩

section Readers

variable {levels : Nat} {v : Json}

/-- A container is read from an object, and its image from the field of that name. -/
theorem Container.of_read {c : Container} (h : Container.read? levels v = some c) :
    ∃ members, v.members? = some members ∧ textField? members "image" = some c.image := by
  simp only [Container.read?, Option.bind_eq_bind, Option.bind_eq_some_iff, Option.pure_def,
    Option.some.injEq] at h
  obtain ⟨members, hmembers, -, -, image, himage, -, -, -, -, rfl⟩ := h
  exact ⟨members, hmembers, himage⟩

/-- A pod is read from an object, and its containers from the two lists, of which one may be
missing. -/
theorem PodSpec.of_read {s : PodSpec} (h : PodSpec.read? levels v = some s) :
    ∃ members, v.members? = some members ∧
      field? members "initContainers" (listOf? (Container.read? (levels - 2))) =
        some s.initContainers ∧
      ∃ listed, field? members "containers" (listOf? (Container.read? (levels - 2))) =
        some listed ∧ s.containers = listed.getD [] := by
  simp only [PodSpec.read?, Option.bind_eq_bind, Option.bind_eq_some_iff, Option.pure_def,
    Option.some.injEq] at h
  obtain ⟨members, hmembers, inits, hinits, listed, hlisted, -, -, rfl⟩ := h
  exact ⟨members, hmembers, hinits, listed, hlisted, rfl⟩

/-- A template is read from an object, and its pod from the field of that name. -/
theorem PodTemplate.of_read {t : PodTemplate} (h : PodTemplate.read? levels v = some t) :
    ∃ members, v.members? = some members ∧
      field? members "spec" (PodSpec.read? (levels - 1)) = some t.spec := by
  simp only [PodTemplate.read?, Option.bind_eq_bind, Option.bind_eq_some_iff, Option.pure_def,
    Option.some.injEq] at h
  obtain ⟨members, hmembers, -, -, spec, hspec, rfl⟩ := h
  exact ⟨members, hmembers, hspec⟩

/-- What is wanted is read from an object; a template that is missing is an empty one. -/
theorem DeploymentSpec.of_read {s : DeploymentSpec} (h : DeploymentSpec.read? levels v = some s) :
    ∃ members, v.members? = some members ∧
      ∃ template, field? members "template" (PodTemplate.read? (levels - 1)) = some template ∧
        s.template = template.getD {} := by
  simp only [DeploymentSpec.read?, Option.bind_eq_bind, Option.bind_eq_some_iff, Option.pure_def,
    Option.some.injEq] at h
  obtain ⟨members, hmembers, template, htemplate, -, -, rfl⟩ := h
  exact ⟨members, hmembers, template, htemplate, rfl⟩

/-- A deployment is read from an object, and what is wanted of it from the field of that name. -/
theorem Deployment.of_read {d : Deployment} (h : Deployment.read? levels v = some d) :
    ∃ members, v.members? = some members ∧
      field? members "spec" (DeploymentSpec.read? (levels - 1)) = some d.spec := by
  rw [Deployment.read?] at h
  simp only [Option.bind_eq_bind, Option.bind_eq_some_iff, Option.pure_def] at h
  obtain ⟨members, hmembers, h⟩ := h
  split at h
  · cases h
  · simp only [Option.bind_eq_some_iff, Option.some.injEq] at h
    obtain ⟨-, -, spec, hspec, -, -, rfl⟩ := h
    exact ⟨members, hmembers, hspec⟩

end Readers

/-- The image of a container is the text under its key. -/
theorem image_of_read {levels : Nat} {v : Json} {c : Container}
    (h : Container.read? levels v = some c) (hkeys : v.hasDistinctKeys = true) :
    (c.image = none ∧ MissingAt ["image"] v) ∨
      ∃ image, valueAt? ["image"] v = some (.str image) ∧ c.image = some image := by
  obtain ⟨members, hmembers, himage⟩ := Container.of_read h
  rcases of_field? hkeys hmembers himage with hmissing | ⟨w, a, hw, ha, hvalue⟩
  · exact .inl hmissing
  · cases w with
    | str text =>
        cases ha
        exact .inr ⟨_, hw, hvalue⟩
    | _ => cases ha

/-- What a deployment's pods run is read from the document at its path. -/
theorem podSpec_of_read {levels : Nat} {v : Json} {d : Deployment}
    (h : Deployment.read? levels v = some d) (hkeys : v.hasDistinctKeys = true) :
    (d.podSpec? = none ∧ MissingAt ["spec", "template", "spec"] v) ∨
      ∃ w s levels', valueAt? ["spec", "template", "spec"] v = some w ∧
        PodSpec.read? levels' w = some s ∧ d.podSpec? = some s := by
  obtain ⟨members, hmembers, hspec⟩ := Deployment.of_read h
  rcases of_field? hkeys hmembers hspec with ⟨hnone, hmissing⟩ |
    ⟨spec, s, hspecAt, hs, hvalue⟩
  · exact .inl ⟨by simp [Deployment.podSpec?, hnone],
      missingAt_below hmissing "template" ["spec"]⟩
  have hspecKeys := hasDistinctKeys_of_valueAt? hkeys hspecAt
  obtain ⟨inSpec, hinSpec, template, htemplate, hdefault⟩ := DeploymentSpec.of_read hs
  rcases of_field? hspecKeys hinSpec htemplate with
    ⟨hnone, hmissing⟩ | ⟨made, t, hmadeAt, ht, hsome⟩
  · exact .inl ⟨by simp [Deployment.podSpec?, hvalue, hdefault, hnone],
      missingAt_append hspecAt (missingAt_below hmissing "spec" [])⟩
  have hmadeKeys := hasDistinctKeys_of_valueAt? hspecKeys hmadeAt
  have hmadeAt' : valueAt? ["spec", "template"] v = some made := by
    rw [show ["spec", "template"] = ["spec"] ++ ["template"] from rfl, valueAt?_append, hspecAt]
    exact hmadeAt
  obtain ⟨inMade, hinMade, hpod⟩ := PodTemplate.of_read ht
  rcases of_field? hmadeKeys hinMade hpod with ⟨hnone, hmissing⟩ |
    ⟨pod, p, hpodAt, hp, hpodSome⟩
  · exact .inl ⟨by simp [Deployment.podSpec?, hvalue, hdefault, hsome, hnone],
      missingAt_append hmadeAt' hmissing⟩
  · refine .inr ⟨pod, p, _, ?_, hp,
      by simp [Deployment.podSpec?, hvalue, hdefault, hsome, hpodSome]⟩
    rw [show ["spec", "template", "spec"] = ["spec", "template"] ++ ["spec"] from rfl,
      valueAt?_append, hmadeAt']
    exact hpodAt

/-- The fields of a pod specification that list containers. -/
inductive Listing where
  | initContainers
  | containers
  deriving DecidableEq

/-- The name of the field. -/
def Listing.key : Listing → String
  | initContainers => "initContainers"
  | containers => "containers"

/-- The path to the field in a deployment. -/
def Listing.path (l : Listing) : List String := ["spec", "template", "spec", l.key]

/-- The containers that a deployment lists in the field. -/
def Listing.of (d : Deployment) : Listing → List Container
  | initContainers => (d.podSpec?.bind (·.initContainers)).getD []
  | containers => (d.podSpec?.map (·.containers)).getD []

/-- Items that are read together were read one by one. -/
theorem forall₂_of_mapM {α β : Type} {f : α → Option β} {as : List α} {bs : List β}
    (h : as.mapM f = some bs) : List.Forall₂ (fun a b => f a = some b) as bs := by
  induction as generalizing bs with
  | nil =>
      cases h
      exact .nil
  | cons a rest ih =>
      simp only [List.mapM_cons, Option.bind_eq_bind, Option.bind_eq_some_iff, Option.pure_def,
        Option.some.injEq] at h
      obtain ⟨b, hb, others, hothers, rfl⟩ := h
      exact .cons hb (ih hothers)

/-- **The containers of a deployment are the items of an array**, in order, or there are none. -/
theorem lists_of_read {levels : Nat} {v : Json} {d : Deployment}
    (h : Deployment.read? levels v = some d) (hkeys : v.hasDistinctKeys = true) (l : Listing) :
    (l.of d = [] ∧ MissingAt l.path v) ∨
      ∃ items levels', valueAt? l.path v = some (.arr items) ∧
        List.Forall₂ (fun item c => Container.read? levels' item = some c) items (l.of d) := by
  rcases podSpec_of_read h hkeys with ⟨hnone, hmissing⟩ |
    ⟨pod, s, levels', hpodAt, hs, hpod⟩
  · exact .inl ⟨by cases l <;> simp [Listing.of, hnone], missingAt_below hmissing l.key []⟩
  have hpodKeys := hasDistinctKeys_of_valueAt? hkeys hpodAt
  obtain ⟨members, hmembers, hinits, listed, hlisted, hdefault⟩ := PodSpec.of_read hs
  obtain ⟨value, hread, hvalue⟩ : ∃ value,
      field? members l.key (listOf? (Container.read? (levels' - 2))) = some value ∧
        l.of d = value.getD [] := by
    cases l with
    | initContainers => exact ⟨_, hinits, by simp [Listing.of, hpod]⟩
    | containers => exact ⟨_, hlisted, by simp [Listing.of, hpod, hdefault]⟩
  rcases of_field? hpodKeys hmembers hread with ⟨rfl, hmissing⟩ | ⟨w, cs, hw, hcs, rfl⟩
  · exact .inl ⟨hvalue, missingAt_append hpodAt hmissing⟩
  · obtain ⟨items, hitems, hmapM⟩ := Option.bind_eq_some_iff.1 hcs
    obtain rfl : w = .arr items := by
      cases w with
      | arr others => exact congrArg _ (Option.some.inj hitems)
      | _ => cases hitems
    refine .inr ⟨items, levels' - 2, ?_, ?_⟩
    · rw [show l.path = ["spec", "template", "spec"] ++ [l.key] from rfl, valueAt?_append, hpodAt]
      exact hw
    · rw [hvalue]
      exact forall₂_of_mapM hmapM

end ImageRollout.Kubernetes
