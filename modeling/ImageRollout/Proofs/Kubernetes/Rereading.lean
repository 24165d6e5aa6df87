import ImageRollout.Proofs.Kubernetes.Reading

/-!
# Documents that are changed before they are read

Where a document is changed below one of its keys, what is read of it differs in the field of that
key and in nothing else.  So a change of a deployment's document can be followed up to the
deployment, record by record.

* `Follows`: a change of what is read follows a change of the document.
* `Follows.field`, `field?_mapPart_of_ne`, `Fields.read?_mapPart`: the field of the key, and the
  others.
* `follows_listing`: the change of a deployment that follows a change of its containers.
-/

namespace ImageRollout.Kubernetes

open Json

/-- Reading a document after a change gives what was read before, changed accordingly. -/
structure Follows {α : Type} (read? : Json → Option α) (change : Json → Json)
    (f : α → α) : Prop where
  null_iff : ∀ v, change v = .null ↔ v = .null
  read : ∀ v, read? (change v) = (read? v).map f

/-- The names of the fields of a record. -/
def Fields.names : Fields → List String
  | .nil => []
  | .field name _ _ rest => name :: rest.names

section Members

variable {α : Type} {read? : Json → Option α} {change : Json → Json} {f : α → α}
  {members : List (String × Json)} {key name : String}

/-- A change below one key leaves the values of every other. -/
theorem filter_mapPart_of_ne (h : name ≠ key) :
    (mapPart key change members).filter (·.1 == name) = members.filter (·.1 == name) := by
  induction members with
  | nil => rfl
  | cons m rest ih =>
      rw [mapPart, List.map_cons, ← mapPart]
      by_cases hname : m.1 = name
      · have hkey : m.1 ≠ key := hname ▸ h
        rw [List.filter_cons_of_pos (by simpa using hname), if_neg hkey, ih,
          List.filter_cons_of_pos (by simpa using hname)]
      · rw [List.filter_cons_of_neg (by simpa using hname), ih,
          List.filter_cons_of_neg (by simpa using hname)]

/-- A change below a key changes each value that stands there. -/
theorem filter_mapPart_self :
    ((mapPart key change members).filter (·.1 == key)).map (·.2) =
      ((members.filter (·.1 == key)).map (·.2)).map change := by
  induction members with
  | nil => rfl
  | cons m rest ih =>
      rw [mapPart, List.map_cons, ← mapPart]
      by_cases hkey : m.1 = key
      · rw [List.filter_cons_of_pos (by simpa using hkey), if_pos hkey,
          List.filter_cons_of_pos (by simpa using hkey)]
        simp only [List.map_cons, ih]
      · rw [List.filter_cons_of_neg (by simpa using hkey), ih,
          List.filter_cons_of_neg (by simpa using hkey)]

/-- Other fields are read as before. -/
theorem field?_mapPart_of_ne (h : name ≠ key) :
    field? (mapPart key change members) name read? = field? members name read? := by
  rw [field?, field?, filter_mapPart_of_ne h]

/-- A list of items follows a change that each item follows. -/
theorem mapM_map_of_follows {β γ : Type} {read? : β → Option γ} {change : β → β}
    {f : γ → γ} (h : ∀ v, read? (change v) = (read? v).map f) (vs : List β) :
    (vs.map change).mapM read? = (vs.mapM read?).map (List.map f) := by
  induction vs with
  | nil => rfl
  | cons v rest ih =>
      rw [List.map_cons, List.mapM_cons, List.mapM_cons, h v, ih]
      cases read? v <;> cases rest.mapM read? <;> rfl

/-- **The field of the key is read with the change that follows.** -/
theorem Follows.field (h : Follows read? change f) :
    field? (mapPart key change members) key read? =
      (field? members key read?).map (Option.map f) := by
  rw [field?, field?, filter_mapPart_self, mapM_map_of_follows (f := Option.map f)]
  · simp only [Option.bind_eq_bind, Option.pure_def, Option.bind_map, Option.map_bind]
    refine congrArg (Option.bind _) (funext fun values => ?_)
    rw [Function.comp_apply, Function.comp_apply, List.getLast?_map]
    cases values.getLast? <;> rfl
  · intro v
    by_cases hv : v = .null
    · rw [hv, (h.null_iff .null).2 rfl]
      rfl
    · have hchange : change v ≠ .null := fun hnull => hv ((h.null_iff v).1 hnull)
      split
      next heq => exact absurd heq hchange
      next =>
        rw [h.read v]
        cases read? v <;> rfl

/-- The fields of a record are read from the members of their names. -/
theorem Fields.read?_congr {others : List (String × Json)} (levels : Nat) : (fields : Fields) →
    (∀ name ∈ fields.names, members.filter (·.1 == name) = others.filter (·.1 == name)) →
    fields.read? levels members = fields.read? levels others
  | .nil, _ => by rw [Fields.read?, Fields.read?]
  | .field name required shape rest, h => by
      obtain ⟨hname, hrest⟩ := List.forall_mem_cons.1 h
      rw [Fields.read?, Fields.read?, hname, Fields.read?_congr levels rest hrest]

/-- The fields of a record are read as before, if the key is none of theirs. -/
theorem Fields.read?_mapPart (levels : Nat) (fields : Fields) (h : key ∉ fields.names) :
    fields.read? levels (mapPart key change members) = fields.read? levels members :=
  Fields.read?_congr levels fields fun _ hname =>
    filter_mapPart_of_ne fun heq => h (heq ▸ hname)

/-- A change below another key leaves the type of a document. -/
theorem typeMatches_mapPart {apiVersion kind : String} (h : key ≠ "apiVersion")
    (h' : key ≠ "kind") :
    typeMatches (mapPart key change members) apiVersion kind =
      typeMatches members apiVersion kind := by
  rw [typeMatches, typeMatches, mapPart, List.all_map]
  refine congrArg (List.all members) (funext fun m => ?_)
  by_cases hkey : m.1 = key
  · simp [hkey, h, h']
  · simp [hkey]

end Members

section Records

variable {change : Json → Json}

/-- A change along a path is one below the first key of it. -/
theorem members?_mapAt (key : String) (path : List String) (v : Json) :
    (mapAt change (key :: path) v).members? =
      v.members?.map (mapPart key (mapAt change path)) := by
  cases v <;> rfl

/-- A change along a path neither makes nor removes a null. -/
theorem mapAt_eq_null_iff (key : String) (path : List String) (v : Json) :
    mapAt change (key :: path) v = .null ↔ v = .null := by
  cases v <;> simp [mapAt, withParts]

/-- A container is read with the changed image, and with all else as before. -/
theorem follows_container {f : String → String} (h : Follows text? change f) (levels : Nat) :
    Follows (Container.read? levels) (mapAt change ["image"])
      fun c => { c with image := c.image.map f } where
  null_iff := mapAt_eq_null_iff _ _
  read v := by
    have hrest : "image" ∉ (Fields.prepend false Shapes.containerRest .nil).names := by decide
    rw [Container.read?, Container.read?, members?_mapAt]
    cases v.members? with
    | none => rfl
    | some members =>
        have himage : field? (mapPart "image" (mapAt change []) members) "image" text? =
            (field? members "image" text?).map (Option.map f) := Follows.field h
        simp only [textField?, restFields?, Option.bind_eq_bind, Option.pure_def, Option.map_some,
          Option.bind_some, ne_eq, String.reduceEq, not_false_eq_true, himage,
          Fields.read?_mapPart _ _ hrest, field?_mapPart_of_ne, Option.map_bind, Option.bind_map,
          Function.comp_def]

/-- A pod specification with one of its lists of containers changed. -/
def Listing.mapPod (f : List Container → List Container) (s : PodSpec) : Listing → PodSpec
  | initContainers => { s with initContainers := s.initContainers.map f }
  | containers => { s with containers := f s.containers }

/-- A deployment with the specification of its pods changed. -/
def mapPodSpec (f : PodSpec → PodSpec) (d : Deployment) : Deployment :=
  { d with
    spec := d.spec.map fun s =>
      { s with template := { s.template with spec := s.template.spec.map f } } }

/-- What happens to the pod of a deployment is seen in its pod. -/
theorem podSpec?_mapPodSpec (f : PodSpec → PodSpec) (d : Deployment) :
    (mapPodSpec f d).podSpec? = d.podSpec?.map f := by
  cases hspec : d.spec with
  | none => simp [mapPodSpec, Deployment.podSpec?, hspec]
  | some s => simp [mapPodSpec, Deployment.podSpec?, hspec]

variable (levels : Nat)

/-- A pod follows a change of one of its lists of containers. -/
theorem follows_pod {f : List Container → List Container} (hnil : f [] = [])
    (h : ∀ levels, Follows (listOf? (Container.read? levels)) change f) (l : Listing) :
    Follows (PodSpec.read? levels) (mapAt change [l.key]) fun s => l.mapPod f s where
  null_iff := mapAt_eq_null_iff _ _
  read v := by
    have hrest : l.key ∉ (Fields.prepend false Shapes.podRest .nil).names := by
      cases l <;> decide
    have hdefault (cs : Option (List Container)) : (cs.map f).getD [] = f (cs.getD []) := by
      cases cs with
      | none => exact hnil.symm
      | some cs => rfl
    rw [PodSpec.read?, PodSpec.read?, members?_mapAt]
    cases v.members? with
    | none => rfl
    | some members =>
        have hfield : field? (mapPart l.key (mapAt change []) members) l.key
            (listOf? (Container.read? (levels - 2))) =
            (field? members l.key (listOf? (Container.read? (levels - 2)))).map (Option.map f) :=
          Follows.field (h (levels - 2))
        cases l <;> rw [Listing.key] at hfield hrest <;>
          simp only [restFields?, Listing.key, Listing.mapPod, Option.bind_eq_bind, Option.pure_def,
            Option.map_some, Option.bind_some, ne_eq, String.reduceEq, not_false_eq_true, hfield,
            Fields.read?_mapPart _ _ hrest, field?_mapPart_of_ne, Option.map_bind, Option.bind_map,
            Function.comp_def, hdefault]

/-- A template follows a change of its pod. -/
theorem follows_template {f : PodSpec → PodSpec}
    (h : Follows (PodSpec.read? (levels - 1)) change f) :
    Follows (PodTemplate.read? levels) (mapAt change ["spec"])
      fun t => { t with spec := t.spec.map f } where
  null_iff := mapAt_eq_null_iff _ _
  read v := by
    rw [PodTemplate.read?, PodTemplate.read?, members?_mapAt]
    cases v.members? with
    | none => rfl
    | some members =>
        have hfield : field? (mapPart "spec" (mapAt change []) members) "spec"
            (PodSpec.read? (levels - 1)) =
            (field? members "spec" (PodSpec.read? (levels - 1))).map (Option.map f) :=
          Follows.field h
        simp only [Option.bind_eq_bind, Option.pure_def, Option.map_some, Option.bind_some, ne_eq,
          String.reduceEq, not_false_eq_true, hfield, field?_mapPart_of_ne, Option.map_bind,
          Option.bind_map, Function.comp_def]

/-- What is wanted follows a change of the template, which leaves an empty one empty. -/
theorem follows_spec {f : PodTemplate → PodTemplate} (hempty : f {} = {})
    (h : Follows (PodTemplate.read? (levels - 1)) change f) :
    Follows (DeploymentSpec.read? levels) (mapAt change ["template"])
      fun s => { s with template := f s.template } where
  null_iff := mapAt_eq_null_iff _ _
  read v := by
    have hrest : "template" ∉ Shapes.deploymentSpecRest.names := by decide
    have hdefault (t : Option PodTemplate) : (t.map f).getD {} = f (t.getD {}) := by
      cases t with
      | none => exact hempty.symm
      | some t => rfl
    rw [DeploymentSpec.read?, DeploymentSpec.read?, members?_mapAt]
    cases v.members? with
    | none => rfl
    | some members =>
        have hfield : field? (mapPart "template" (mapAt change []) members) "template"
            (PodTemplate.read? (levels - 1)) =
            (field? members "template" (PodTemplate.read? (levels - 1))).map (Option.map f) :=
          Follows.field h
        simp only [Option.bind_eq_bind, Option.pure_def, Option.map_some, Option.bind_some, hfield,
          Fields.read?_mapPart _ _ hrest, Option.map_bind, Option.bind_map, Function.comp_def,
          hdefault]

/-- A deployment follows a change of what is wanted. -/
theorem follows_deployment {f : DeploymentSpec → DeploymentSpec}
    (h : Follows (DeploymentSpec.read? (levels - 1)) change f) :
    Follows (Deployment.read? levels) (mapAt change ["spec"])
      fun d => { d with spec := d.spec.map f } where
  null_iff := mapAt_eq_null_iff _ _
  read v := by
    rw [Deployment.read?, Deployment.read?, members?_mapAt]
    cases v.members? with
    | none => rfl
    | some members =>
        have hfield : field? (mapPart "spec" (mapAt change []) members) "spec"
            (DeploymentSpec.read? (levels - 1)) =
            (field? members "spec" (DeploymentSpec.read? (levels - 1))).map (Option.map f) :=
          Follows.field h
        cases htype : typeMatches members "apps/v1" "Deployment" with
        | false => simp [typeMatches_mapPart, htype]
        | true =>
            simp only [Option.bind_eq_bind, Option.pure_def, Option.map_some, Option.bind_some,
              ne_eq, String.reduceEq, not_false_eq_true, typeMatches_mapPart, htype,
              Bool.not_eq_eq_eq_not, Bool.not_true, Bool.true_eq_false, ↓reduceIte, hfield,
              field?_mapPart_of_ne, Option.map_bind, Option.bind_map, Function.comp_def]

/-- **A change of a deployment's containers follows that of their documents.** -/
theorem follows_listing {f : List Container → List Container} (hnil : f [] = [])
    (h : ∀ levels, Follows (listOf? (Container.read? levels)) change f) (l : Listing) :
    Follows (Deployment.read? levels) (mapAt change l.path) (mapPodSpec fun s => l.mapPod f s) :=
  follows_deployment levels (follows_spec _ rfl (follows_template _ (follows_pod _ hnil h l)))

end Records

/-- One change after another. -/
theorem Follows.comp {α : Type} {read? : Json → Option α} {change change' : Json → Json}
    {f f' : α → α} (h' : Follows read? change' f') (h : Follows read? change f) :
    Follows read? (change' ∘ change) (f' ∘ f) where
  null_iff v := (h'.null_iff _).trans (h.null_iff v)
  read v := by
    rw [Function.comp_apply, h'.read, h.read, Option.map_map]

end ImageRollout.Kubernetes
