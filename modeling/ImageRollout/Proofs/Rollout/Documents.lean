import ImageRollout.Proofs.Kubernetes.Rereading
import ImageRollout.Proofs.Rollout.Merge

/-!
# Patches carried out on documents

An API server stores documents, and it knows nothing of what is read from them.  It merges a patch
into the document of a deployment key by key and containers by name, and where the document lacks
something on the way, the merge adds it.  What is read of the document afterwards is what the patch
makes of the deployment.

* `hasDistinctKeys_mergeAt`: a merge repeats no key.
* `Amends`: a merge into a document, and what it does to what is read of it.
* `Amends.field`, `field?_putMember_of_ne`: the field of the merged key, and the others.
* `amends_annotations`, `amends_containers`: the two ends of a patch.
* `ofJson?_merge`: the deployment that is read after a patch.
-/

namespace ImageRollout.Rollout

open Json Kubernetes

section Keys

/-- After a merge every member is an old one, or that of the key with the merged value. -/
theorem mem_putMember {key : String} {f : Json → Json} {ms : List (String × Json)}
    {m : String × Json} (h : m ∈ putMember key f ms) :
    m ∈ ms ∨ m.1 = key ∧ (m.2 = f .null ∨ ∃ old ∈ ms, m.2 = f old.2) := by
  induction ms with
  | nil =>
      obtain rfl := List.mem_singleton.1 h
      exact .inr ⟨rfl, .inl rfl⟩
  | cons first rest ih =>
      rw [putMember] at h
      split at h
      next hkey =>
        rcases List.mem_cons.1 h with rfl | hrest
        · exact .inr ⟨hkey, .inr ⟨_, List.mem_cons_self, rfl⟩⟩
        · exact .inl (List.mem_cons_of_mem _ hrest)
      next =>
        rcases List.mem_cons.1 h with rfl | hrest
        · exact .inl List.mem_cons_self
        · rcases ih hrest with hold | ⟨hkey, hnull | ⟨old, hold, heq⟩⟩
          · exact .inl (List.mem_cons_of_mem _ hold)
          · exact .inr ⟨hkey, .inl hnull⟩
          · exact .inr ⟨hkey, .inr ⟨old, List.mem_cons_of_mem _ hold, heq⟩⟩

/-- A merge repeats no key. -/
theorem nodup_putMember {key : String} {f : Json → Json} {ms : List (String × Json)}
    (h : (ms.map (·.1)).Nodup) : ((putMember key f ms).map (·.1)).Nodup := by
  induction ms with
  | nil => exact List.nodup_singleton _
  | cons m rest ih =>
      obtain ⟨hfresh, hrest⟩ := List.nodup_cons.1 h
      rw [putMember]
      split
      next => exact h
      next hother =>
        refine List.nodup_cons.2 ⟨fun hmem => ?_, ih hrest⟩
        obtain ⟨m', hm', heq⟩ := List.mem_map.1 hmem
        rcases mem_putMember hm' with hold | ⟨hkey, -⟩
        · exact hfresh (List.mem_map.2 ⟨m', hold, heq⟩)
        · exact hother (heq.symm.trans hkey)

/-- After a merge every item is an old one, or the merge into one or into nothing. -/
theorem mem_putNamed {name : Option String} {f : Json → Json} {vs : List Json} {v : Json}
    (h : v ∈ putNamed name f vs) : v ∈ vs ∨ v = f .null ∨ ∃ old ∈ vs, v = f old := by
  induction vs with
  | nil => exact .inr (.inl (List.mem_singleton.1 h))
  | cons first rest ih =>
      rw [putNamed] at h
      split at h
      · rcases List.mem_cons.1 h with rfl | hrest
        · exact .inr (.inr ⟨_, List.mem_cons_self, rfl⟩)
        · exact .inl (List.mem_cons_of_mem _ hrest)
      · rcases List.mem_cons.1 h with rfl | hrest
        · exact .inl List.mem_cons_self
        · rcases ih hrest with hold | hnull | ⟨old, hold, heq⟩
          · exact .inl (List.mem_cons_of_mem _ hold)
          · exact .inr (.inl hnull)
          · exact .inr (.inr ⟨old, List.mem_cons_of_mem _ hold, heq⟩)

/-- Only an object has members. -/
theorem eq_obj_of_members? {v : Json} {ms : List (String × Json)} (h : v.members? = some ms) :
    v = .obj ms := by
  cases v with
  | obj ms => exact congrArg obj (Option.some.inj h)
  | _ => cases h

/-- No key of an object is repeated if none is among its members, and none below any of them. -/
theorem hasDistinctKeys_obj {ms : List (String × Json)} :
    (obj ms).hasDistinctKeys = true ↔
      (ms.map (·.1)).Nodup ∧ ∀ m ∈ ms, m.2.hasDistinctKeys = true :=
  hasDistinctKeys_iff (obj ms)

/-- No key of an array is repeated if none of any of its items is. -/
theorem hasDistinctKeys_arr {vs : List Json} :
    (arr vs).hasDistinctKeys = true ↔ ∀ v ∈ vs, v.hasDistinctKeys = true :=
  itemsHaveDistinctKeys_iff vs

/-- A change that repeats no key does not when it is made below a key. -/
theorem hasDistinctKeys_putMember {key : String} {f : Json → Json} {ms : List (String × Json)}
    (hf : ∀ v, v.hasDistinctKeys = true → (f v).hasDistinctKeys = true)
    (h : (obj ms).hasDistinctKeys = true) : (obj (putMember key f ms)).hasDistinctKeys = true := by
  obtain ⟨hkeys, hvalues⟩ := hasDistinctKeys_obj.1 h
  refine hasDistinctKeys_obj.2 ⟨nodup_putMember hkeys, fun m hm => ?_⟩
  rcases mem_putMember hm with hold | ⟨-, hnull | ⟨old, hold, heq⟩⟩
  · exact hvalues m hold
  · exact hnull ▸ hf .null rfl
  · exact heq ▸ hf _ (hvalues old hold)

/-- A change that repeats no key does not when it is made of a named item. -/
theorem hasDistinctKeys_putNamed {name : Option String} {f : Json → Json} {vs : List Json}
    (hf : ∀ v, v.hasDistinctKeys = true → (f v).hasDistinctKeys = true)
    (h : (arr vs).hasDistinctKeys = true) : (arr (putNamed name f vs)).hasDistinctKeys = true := by
  have hvalues := hasDistinctKeys_arr.1 h
  refine hasDistinctKeys_arr.2 fun v hv => ?_
  rcases mem_putNamed hv with hold | rfl | ⟨old, hold, rfl⟩
  · exact hvalues v hold
  · exact hf .null rfl
  · exact hf _ (hvalues old hold)

mutual

/-- **A merge repeats no key**, if neither the patch nor the document does. -/
theorem hasDistinctKeys_mergeAt (key : String) : (p : Json) → p.hasDistinctKeys = true →
    (v : Json) → v.hasDistinctKeys = true → (mergeAt key p v).hasDistinctKeys = true
  | .obj ps, hp, v, hv => by
      rw [mergeAt]
      refine hasDistinctKeys_mergeMembers ps (hasDistinctKeys_obj.1 hp).2 _ ?_
      cases v with
      | obj ms => exact hv
      | _ => rfl
  | .arr ps, hp, v, hv => by
      rw [mergeAt]
      split
      · refine hasDistinctKeys_mergeNamed ps (hasDistinctKeys_arr.1 hp) _ ?_
        cases v with
        | arr vs => exact hv
        | _ => rfl
      · exact hp
  | .null, _, _, _ => rfl
  | .bool _, _, _, _ => rfl
  | .int _, _, _, _ => rfl
  | .number _, _, _, _ => rfl
  | .str _, _, _, _ => rfl
  | .unreadable, _, _, _ => rfl

/-- A merge of members repeats no key. -/
theorem hasDistinctKeys_mergeMembers : (ps : List (String × Json)) →
    (∀ p ∈ ps, p.2.hasDistinctKeys = true) → (ms : List (String × Json)) →
    (obj ms).hasDistinctKeys = true → (obj (mergeMembers ps ms)).hasDistinctKeys = true
  | [], _, _, h => h
  | (key, p) :: rest, hps, ms, h => by
      rw [mergeMembers]
      exact hasDistinctKeys_mergeMembers rest (fun q hq => hps q (List.mem_cons_of_mem _ hq)) _
        (hasDistinctKeys_putMember (hasDistinctKeys_mergeAt key p (hps _ List.mem_cons_self)) h)

/-- A merge of items by name repeats no key. -/
theorem hasDistinctKeys_mergeNamed :
    (ps : List Json) → (∀ p ∈ ps, p.hasDistinctKeys = true) →
    (vs : List Json) → (arr vs).hasDistinctKeys = true →
    (arr (mergeNamed ps vs)).hasDistinctKeys = true
  | [], _, _, h => h
  | p :: rest, hps, vs, h => by
      rw [mergeNamed]
      exact hasDistinctKeys_mergeNamed rest (fun q hq => hps q (List.mem_cons_of_mem _ hq)) _
        (hasDistinctKeys_putNamed (hasDistinctKeys_mergeAt "" p (hps _ List.mem_cons_self)) h)

end

end Keys

section Fields

variable {α : Type} {read? : Json → Option α} {change : Json → Json} {f : α → α}
  {blank : α} {ms : List (String × Json)} {key name : String}

/-- A merge below a key leaves the members of other keys alone. -/
theorem filter_putMember_of_ne (h : name ≠ key) :
    (putMember key change ms).filter (·.1 == name) = ms.filter (·.1 == name) := by
  induction ms with
  | nil => exact List.filter_cons_of_neg (by simpa using Ne.symm h)
  | cons m rest ih =>
      obtain ⟨k, v⟩ := m
      rw [putMember]
      split
      next hk =>
        have hother : ¬ k = name := fun hname => h (hname.symm.trans hk)
        rw [List.filter_cons_of_neg (by simpa using hother),
          List.filter_cons_of_neg (by simpa using hother)]
      next => rw [List.filter_cons, List.filter_cons, ih]

/-- What is found under the key is what was there before, or null, with the change. -/
theorem lookup_putMember :
    (putMember key change ms).lookup key = some (change ((ms.lookup key).getD .null)) := by
  induction ms with
  | nil => rw [putMember, Table.lookup_cons, if_pos rfl]; rfl
  | cons m rest ih =>
      obtain ⟨k, v⟩ := m
      rw [putMember, Table.lookup_cons]
      by_cases hk : k = key
      · rw [if_pos hk, Table.lookup_cons, if_pos hk.symm, if_pos hk.symm]
        rfl
      · rw [if_neg hk, Table.lookup_cons, if_neg (Ne.symm hk), if_neg (Ne.symm hk), ih]

/-- Other fields are read as before. -/
theorem field?_putMember_of_ne (h : name ≠ key) :
    field? (putMember key change ms) name read? = field? ms name read? := by
  rw [field?, field?, filter_putMember_of_ne h]

/-- The fields of a record are read as before, if the key is none of theirs. -/
theorem read?_putMember (levels : Nat) (fields : Fields) (h : key ∉ fields.names) :
    fields.read? levels (putMember key change ms) = fields.read? levels ms :=
  Fields.read?_congr levels fields fun _ hname =>
    filter_putMember_of_ne fun heq => h (heq ▸ hname)

/-- A merge elsewhere does not change of which type a document is. -/
theorem typeMatches_putMember {apiVersion kind : String} (h : key ≠ "apiVersion")
    (h' : key ≠ "kind") :
    typeMatches (putMember key change ms) apiVersion kind = typeMatches ms apiVersion kind := by
  induction ms with
  | nil => simp [putMember, typeMatches, h, h']
  | cons m rest ih =>
      obtain ⟨k, v⟩ := m
      rw [typeMatches, typeMatches] at ih
      rw [typeMatches, typeMatches, putMember]
      split
      next hk => simp [hk, h, h']
      next => rw [List.all_cons, List.all_cons, ih]

/-- What is read of a document after a merge into it is what was read before, changed accordingly.
Where there is no document, or null, the merge is into an empty one. -/
structure Amends (read? : Json → Option α) (blank : α) (change : Json → Json)
    (f : α → α) : Prop where
  nothing : read? .null = none
  added : read? (change .null) = some (f blank)
  read : ∀ v a, v.hasDistinctKeys = true → read? v = some a → read? (change v) = some (f a)

/-- The field of the merged key has what the merge makes of what stands under the key, or of
null. -/
theorem field?_putMember {a : α} (hnothing : read? .null = none) (hnodup : (ms.map (·.1)).Nodup)
    (h : read? (change ((ms.lookup key).getD .null)) = some a) :
    field? (putMember key change ms) key read? = some (some a) := by
  rw [field?, filter_key (nodup_putMember hnodup), lookup_putMember]
  simp only [Option.toList_some, List.mapM_cons, List.mapM_nil]
  split
  next hnull =>
    rw [hnull, hnothing] at h
    cases h
  next =>
    rw [h]
    rfl

/-- **A field that the merge may add**: it has what the merge makes of it, or of an empty
document. -/
theorem Amends.field (h : Amends read? blank change f) (hkeys : (obj ms).hasDistinctKeys = true)
    {value : Option α} (hread : field? ms key read? = some value) :
    field? (putMember key change ms) key read? = some (some (f (value.getD blank))) := by
  refine field?_putMember h.nothing (hasDistinctKeys_obj.1 hkeys).1 ?_
  rcases of_field? hkeys rfl hread with ⟨rfl, hmissing⟩ | ⟨w, a, hw, ha, rfl⟩
  · -- A merge makes no difference between a field that is missing and one that is null.
    have hnull : (ms.lookup key).getD .null = .null := by
      rw [MissingAt, valueAt?_key, parts] at hmissing
      rcases hmissing with hnone | hnull
      · rw [hnone]
        rfl
      · rw [hnull]
        rfl
    rw [hnull]
    exact h.added
  · rw [valueAt?_key, parts] at hw
    rw [hw]
    exact h.read w a (hasDistinctKeys_of_lookup hkeys hw) ha

/-- **A field that is there**: it has what the merge makes of it. -/
theorem field?_putMember_of_some {a b : α} (hnothing : read? .null = none)
    (hkeys : (obj ms).hasDistinctKeys = true) (hread : field? ms key read? = some (some a))
    (h : ∀ w, w.hasDistinctKeys = true → read? w = some a → read? (change w) = some b) :
    field? (putMember key change ms) key read? = some (some b) := by
  refine field?_putMember hnothing (hasDistinctKeys_obj.1 hkeys).1 ?_
  rcases of_field? hkeys rfl hread with ⟨hnone, -⟩ | ⟨w, a', hw, ha, hsome⟩
  · cases hnone
  · cases hsome
    rw [valueAt?_key, parts] at hw
    rw [hw]
    exact h w (hasDistinctKeys_of_lookup hkeys hw) ha

end Fields

section Annotations

/-- The member that a map of texts has for an entry. -/
def textMember (e : String × String) : String × Json := (e.1, .str e.2)

/-- The entry that is read from a member. -/
def textEntry? (m : String × Json) : Option (String × String) := m.2.text?.map (m.1, ·)

/-- Members are read as a map of texts if they are the members of one. -/
theorem mapM_textEntry?_eq_some_iff {ms : List (String × Json)} {entries : TextMap} :
    ms.mapM textEntry? = some entries ↔ ms = entries.map textMember := by
  constructor
  · intro h
    induction ms generalizing entries with
    | nil =>
        cases h
        rfl
    | cons m rest ih =>
        obtain ⟨key, v⟩ := m
        simp only [List.mapM_cons, Option.bind_eq_bind, Option.bind_eq_some_iff, Option.pure_def,
          Option.some.injEq] at h
        obtain ⟨e, he, others, hothers, rfl⟩ := h
        obtain ⟨text, htext, rfl⟩ := Option.map_eq_some_iff.1 he
        obtain rfl : v = .str text := by
          cases v with
          | str s => exact congrArg Json.str (Option.some.inj htext)
          | _ => cases htext
        rw [ih hothers]
        rfl
  · rintro rfl
    induction entries with
    | nil => rfl
    | cons e rest ih =>
        rw [List.map_cons, List.mapM_cons, ih]
        rfl

/-- In a map without repeated keys all entries are the last ones of their keys. -/
theorem lastOf_eq_self {m : TextMap} (h : (m.map (·.1)).Nodup) : TextMap.ofJson?.lastOf m = m := by
  induction m with
  | nil => rfl
  | cons e rest ih =>
      obtain ⟨hfresh, hrest⟩ := List.nodup_cons.1 h
      have hlast : rest.any (·.1 == e.1) = false := by
        rw [List.any_eq_false]
        intro other hother heq
        exact hfresh (List.mem_map.2 ⟨other, hother, beq_iff_eq.1 heq⟩)
      rw [TextMap.ofJson?.lastOf, hlast, ih hrest]
      rfl

/-- Entries and their members have the same keys. -/
theorem keys_textMember (m : TextMap) : (m.map textMember).map (·.1) = m.map (·.1) := by
  rw [List.map_map]
  rfl

/-- Where no key is repeated, a map of texts is read from its own document and from no other. -/
theorem ofJson?_eq_some_iff {v : Json} (hkeys : v.hasDistinctKeys = true) {m : TextMap} :
    TextMap.ofJson? v = some m ↔ v = m.toJson := by
  have hread : TextMap.ofJson? v = v.members?.bind fun ms =>
      (ms.mapM textEntry?).bind fun entries => some (TextMap.ofJson?.lastOf entries) := rfl
  rw [hread]
  cases v with
  | obj ms =>
      obtain ⟨hnodup, -⟩ := hasDistinctKeys_obj.1 hkeys
      simp only [Json.members?, Option.bind_some, Option.bind_eq_some_iff, Option.some.injEq,
        mapM_textEntry?_eq_some_iff]
      constructor
      · rintro ⟨entries, rfl, rfl⟩
        rw [keys_textMember] at hnodup
        rw [lastOf_eq_self hnodup]
        rfl
      · intro h
        obtain rfl : ms = m.map textMember := Json.obj.inj h
        rw [keys_textMember] at hnodup
        exact ⟨m, rfl, lastOf_eq_self hnodup⟩
  | _ => simp [Json.members?, TextMap.toJson]

/-- A merge of one text. -/
theorem mergeAt_text (outer key text : String) (m : TextMap) :
    mergeAt outer (.obj [(key, .str text)]) m.toJson = (setText key text m).toJson := by
  rw [TextMap.toJson, mergeAt, mergeMembers, mergeMembers]
  change obj (putMember key (fun _ => .str text) (m.map fun e => (e.1, .str e.2))) = _
  rw [putMember_texts]
  rfl

/-- A text that is merged in under a key is set in the map of texts. -/
theorem amends_annotations (outer key text : String) :
    Amends TextMap.ofJson? [] (mergeAt outer (.obj [(key, .str text)])) (setText key text) where
  nothing := rfl
  added := rfl
  read v m hkeys h := by
    have hpatch : (obj [(key, .str text)]).hasDistinctKeys = true := rfl
    have hmerged := hasDistinctKeys_mergeAt outer _ hpatch v hkeys
    rw [(ofJson?_eq_some_iff hkeys).1 h, mergeAt_text] at hmerged ⊢
    exact (ofJson?_eq_some_iff hmerged).2 rfl

end Annotations

section Records

variable {q : Json} {levels : Nat}

/-- A merge into a record, where the empty document reads as the empty record. -/
theorem amends_of_object {α : Type} {read? : Json → Option α} {blank : α} {outer : String}
    {ps : List (String × Json)} {f : α → α}
    (hnothing : ∀ v, v.members? = none → read? v = none)
    (hblank : read? (.obj []) = some blank)
    (h : ∀ ms a, (obj ms).hasDistinctKeys = true → read? (.obj ms) = some a →
      read? (.obj (mergeMembers ps ms)) = some (f a)) :
    Amends read? blank (mergeAt outer (.obj ps)) f where
  nothing := hnothing .null rfl
  added := h [] blank rfl hblank
  read v a hkeys hread := by
    cases v with
    | obj ms => exact h ms a hkeys hread
    | _ => exact absurd (hread.symm.trans (hnothing _ rfl)) (by simp)

/-- Of an empty object all fields are read as missing. -/
theorem read?_nil (levels : Nat) : (fields : Fields) →
    fields.read? levels [] = some fields.empties
  | .nil => by rw [Fields.read?, Fields.empties]
  | .field name required shape rest => by
      rw [Fields.read?, read?_nil levels rest, Fields.empties]
      rfl

/-- Optional fields that are missing leave nothing behind. -/
theorem empties_optional (fields : List (String × Shape)) :
    (Fields.prepend false fields .nil).empties = [] := by
  induction fields with
  | nil => rfl
  | cons f rest ih =>
      change Fields.empties (.field f.1 false f.2 (Fields.prepend false rest .nil)) = []
      rw [Fields.empties, ih]
      rfl

/-- Of an empty object nothing is kept beyond the fields that are read. -/
theorem restFields?_nil (levels : Nat) (fields : List (String × Shape)) :
    restFields? levels [] fields = some [] := by
  rw [restFields?, read?_nil, empties_optional]

/-- A merge into the annotations changes the annotations of the metadata, and nothing else. -/
theorem amends_metadata (outer : String) {f : TextMap → TextMap}
    (h : Amends TextMap.ofJson? [] (mergeAt "annotations" q) f) :
    Amends (Metadata.read? levels) {} (mergeAt outer (.obj [("annotations", q)]))
      fun m => { m with annotations := some (f (m.annotations.getD [])) } := by
  refine amends_of_object (fun v hv => by rw [Metadata.read?, hv]; rfl) ?_
    fun ms m hkeys hread => ?_
  · simp [Metadata.read?, Json.members?, restFields?_nil, textField?, field?]
  · have hrest : "annotations" ∉ (Fields.prepend false Shapes.metadataRest .nil).names := by
      decide
    simp only [Metadata.read?, Json.members?, Option.bind_eq_bind, Option.bind_eq_some_iff,
      Option.pure_def, Option.some.injEq] at hread
    obtain ⟨_, rfl, name, hname, generated, hgenerated, within, hwithin, uid, huid, version,
      hversion, created, hcreated, managed, hmanaged, labels, hlabels, annotations, hannotations,
      others, hothers, rfl⟩ := hread
    have hmerged := h.field hkeys hannotations
    rw [textField?] at hname hgenerated hwithin huid hversion
    rw [restFields?] at hothers
    simp [Metadata.read?, Json.members?, mergeMembers, textField?, restFields?,
      field?_putMember_of_ne, read?_putMember _ _ hrest, hname, hgenerated, hwithin, huid,
      hversion, hcreated, hmanaged, hlabels, hmerged, hothers]

/-- A merge of images into the containers of a pod. -/
theorem amends_pod (outer : String) {f : List Container → List Container}
    (h : Amends (listOf? (Container.read? (levels - 2))) [] (mergeAt "containers" q) f) :
    Amends (PodSpec.read? levels) {} (mergeAt outer (.obj [("containers", q)]))
      fun s => { s with containers := f s.containers } := by
  refine amends_of_object (fun v hv => by rw [PodSpec.read?, hv]; rfl) ?_ fun ms s hkeys hread => ?_
  · simp [PodSpec.read?, Json.members?, restFields?_nil, field?]
  · have hrest : "containers" ∉ (Fields.prepend false Shapes.podRest .nil).names := by decide
    simp only [PodSpec.read?, Json.members?, Option.bind_eq_bind, Option.bind_eq_some_iff,
      Option.pure_def, Option.some.injEq] at hread
    obtain ⟨_, rfl, inits, hinits, listed, hlisted, others, hothers, rfl⟩ := hread
    have hmerged := h.field hkeys hlisted
    rw [restFields?] at hothers
    simp [PodSpec.read?, Json.members?, mergeMembers, restFields?, field?_putMember_of_ne,
      read?_putMember _ _ hrest, hinits, hmerged, hothers]

/-- A merge into the metadata of a pod template. -/
theorem amends_templateMetadata (outer : String) {f : Metadata → Metadata}
    (h : Amends (Metadata.read? (levels - 1)) {} (mergeAt "metadata" q) f) :
    Amends (PodTemplate.read? levels) {} (mergeAt outer (.obj [("metadata", q)]))
      fun t => { t with metadata := some (f (t.metadata.getD {})) } := by
  refine amends_of_object (fun v hv => by rw [PodTemplate.read?, hv]; rfl) ?_
    fun ms t hkeys hread => ?_
  · simp [PodTemplate.read?, Json.members?, field?]
  · simp only [PodTemplate.read?, Json.members?, Option.bind_eq_bind, Option.bind_eq_some_iff,
      Option.pure_def, Option.some.injEq] at hread
    obtain ⟨_, rfl, metadata, hmetadata, spec, hspec, rfl⟩ := hread
    have hmerged := h.field hkeys hmetadata
    simp [PodTemplate.read?, Json.members?, mergeMembers, field?_putMember_of_ne, hspec, hmerged]

/-- A merge into the pod specification of a pod template. -/
theorem amends_templateSpec (outer : String) {f : PodSpec → PodSpec}
    (h : Amends (PodSpec.read? (levels - 1)) {} (mergeAt "spec" q) f) :
    Amends (PodTemplate.read? levels) {} (mergeAt outer (.obj [("spec", q)]))
      fun t => { t with spec := some (f (t.spec.getD {})) } := by
  refine amends_of_object (fun v hv => by rw [PodTemplate.read?, hv]; rfl) ?_
    fun ms t hkeys hread => ?_
  · simp [PodTemplate.read?, Json.members?, field?]
  · simp only [PodTemplate.read?, Json.members?, Option.bind_eq_bind, Option.bind_eq_some_iff,
      Option.pure_def, Option.some.injEq] at hread
    obtain ⟨_, rfl, metadata, hmetadata, spec, hspec, rfl⟩ := hread
    have hmerged := h.field hkeys hspec
    simp [PodTemplate.read?, Json.members?, mergeMembers, field?_putMember_of_ne, hmetadata,
      hmerged]

end Records

section Containers

variable {levels : Nat}

/-- What a patch says of one container. -/
def containerPatch (change : String × String) : Json :=
  .obj [("name", .str change.1), ("image", .str change.2)]

/-- A text that is merged into a text replaces it. -/
theorem amends_text (outer text : String) :
    Amends text? "" (mergeAt outer (.str text)) fun _ => text where
  nothing := rfl
  added := rfl
  read _ _ _ _ := rfl

/-- A merge into one container. -/
theorem amends_container (levels : Nat) (outer : String) (change : String × String) :
    Amends (Container.read? levels) { name := "" } (mergeAt outer (containerPatch change))
      fun c => { c with name := change.1, image := some change.2 } := by
  refine amends_of_object (fun v hv => by rw [Container.read?, hv]; rfl) ?_
    fun ms c hkeys hread => ?_
  · simp [Container.read?, Json.members?, restFields?_nil, textField?, field?]
  · have hname : "name" ∉ (Fields.prepend false Shapes.containerRest .nil).names := by decide
    have himage : "image" ∉ (Fields.prepend false Shapes.containerRest .nil).names := by decide
    simp only [Container.read?, Json.members?, Option.bind_eq_bind, Option.bind_eq_some_iff,
      Option.pure_def, Option.some.injEq] at hread
    obtain ⟨_, rfl, name, hreadName, image, hreadImage, policy, hpolicy, others, hothers,
      rfl⟩ := hread
    rw [textField?] at hreadName hreadImage hpolicy
    rw [restFields?] at hothers
    have hnamed := (amends_text "name" change.1).field hkeys hreadName
    have hkeys' : (obj (putMember "name" (mergeAt "name" (.str change.1)) ms)).hasDistinctKeys =
        true := hasDistinctKeys_putMember (fun _ _ => rfl) hkeys
    have hmerged := (amends_text "image" change.2).field hkeys'
      ((field?_putMember_of_ne (by decide)).trans hreadImage)
    simp [Container.read?, Json.members?, mergeMembers, textField?, restFields?,
      field?_putMember_of_ne, read?_putMember _ _ hname, read?_putMember _ _ himage, hnamed,
      hmerged, hpolicy, hothers]

/-- A document has the name of the container that is read from it, if that has one. -/
theorem nameOf?_eq_some_iff {v : Json} (hkeys : v.hasDistinctKeys = true) {c : Container}
    (h : Container.read? levels v = some c) {name : String} (hname : name ≠ "") :
    nameOf? v = some name ↔ c.name = name := by
  simp only [Container.read?, Option.bind_eq_bind, Option.bind_eq_some_iff, Option.pure_def,
    Option.some.injEq] at h
  obtain ⟨ms, hms, value, hvalue, -, -, -, -, -, -, rfl⟩ := h
  have hnameOf : nameOf? v = value := by
    rw [nameOf?, hms]
    obtain rfl := eq_obj_of_members? hms
    rcases of_field? hkeys rfl hvalue with ⟨rfl, hmissing⟩ | ⟨w, text, hw, htext, rfl⟩
    · rw [MissingAt, valueAt?_key, parts] at hmissing
      rcases hmissing with hnone | hnull
      · simp [hnone]
      · simp [hnull, text?]
    · rw [valueAt?_key, parts] at hw
      simp [hw, htext]
  rw [hnameOf]
  cases value with
  | none => simp [Ne.symm hname]
  | some text => simp

/-- A merge into the container of a name. -/
theorem mapM_putNamed {change : String × String} (hname : change.1 ≠ "") {items : List Json}
    (hkeys : ∀ v ∈ items, v.hasDistinctKeys = true) {cs : List Container}
    (h : items.mapM (Container.read? levels) = some cs) :
    (putNamed (some change.1) (mergeAt "" (containerPatch change)) items).mapM
        (Container.read? levels) = some (setImage change cs) := by
  have hamends := amends_container levels "" change
  induction items generalizing cs with
  | nil =>
      cases h
      rw [putNamed, List.mapM_cons, hamends.added]
      rfl
  | cons v rest ih =>
      simp only [List.mapM_cons, Option.bind_eq_bind, Option.bind_eq_some_iff, Option.pure_def,
        Option.some.injEq] at h
      obtain ⟨c, hc, others, hothers, rfl⟩ := h
      obtain ⟨hv, hrest⟩ := List.forall_mem_cons.1 hkeys
      have hnamed := nameOf?_eq_some_iff hv hc hname
      rw [putNamed, setImage]
      by_cases hown : c.name = change.1
      · rw [if_pos (hnamed.2 hown), if_pos hown, List.mapM_cons, hamends.read v c hv hc, hothers,
          ← hown]
        rfl
      · rw [if_neg (mt hnamed.1 hown), if_neg hown, List.mapM_cons, hc, ih hrest hothers]
        rfl

/-- A merge of containers by name sets the images of the named ones. -/
theorem mapM_mergeNamed {changes : List (String × String)}
    (hnames : ∀ change ∈ changes, change.1 ≠ "") {items : List Json}
    (hkeys : (arr items).hasDistinctKeys = true) {cs : List Container}
    (h : items.mapM (Container.read? levels) = some cs) :
    (mergeNamed (changes.map containerPatch) items).mapM (Container.read? levels) =
      some (setImages changes cs) := by
  induction changes generalizing items cs with
  | nil => exact h
  | cons change rest ih =>
      obtain ⟨hname, hrest⟩ := List.forall_mem_cons.1 hnames
      have hpatch : (containerPatch change).hasDistinctKeys = true := rfl
      rw [List.map_cons, mergeNamed]
      exact ih hrest (hasDistinctKeys_putNamed (hasDistinctKeys_mergeAt "" _ hpatch) hkeys)
        (mapM_putNamed hname (hasDistinctKeys_arr.1 hkeys) h)

/-- A merge into the containers of a pod, by name. -/
theorem amends_containers {changes : List (String × String)}
    (hnames : ∀ change ∈ changes, change.1 ≠ "") :
    Amends (listOf? (Container.read? levels)) []
      (mergeAt "containers" (.arr (changes.map containerPatch))) (setImages changes) where
  nothing := rfl
  added := by
    have hnone : ([] : List Json).mapM (Container.read? levels) = some [] := rfl
    rw [mergeAt, if_pos rfl]
    exact mapM_mergeNamed hnames rfl hnone
  read v cs hkeys h := by
    cases v with
    | arr items =>
        rw [mergeAt, if_pos rfl]
        exact mapM_mergeNamed hnames hkeys h
    | _ => cases h

end Containers

section Deployments

variable {q : Json} {levels : Nat}

/-- A merge into what a deployment asks for. -/
theorem read?_mergeAt_spec (outer : String) {f : PodTemplate → PodTemplate}
    (h : Amends (PodTemplate.read? (levels - 1)) {} (mergeAt "template" q) f) {v : Json}
    (hkeys : v.hasDistinctKeys = true) {s : DeploymentSpec}
    (hread : DeploymentSpec.read? levels v = some s) :
    DeploymentSpec.read? levels (mergeAt outer (.obj [("template", q)]) v) =
      some { s with template := f s.template } := by
  have hrest : "template" ∉ Shapes.deploymentSpecRest.names := by decide
  simp only [DeploymentSpec.read?, Option.bind_eq_bind, Option.bind_eq_some_iff, Option.pure_def,
    Option.some.injEq] at hread
  obtain ⟨ms, hms, template, htemplate, others, hothers, rfl⟩ := hread
  obtain rfl := eq_obj_of_members? hms
  have hmerged := h.field hkeys htemplate
  simp [DeploymentSpec.read?, mergeAt, Json.members?, mergeMembers, read?_putMember _ _ hrest,
    hmerged, hothers]

/-- A merge into a deployment. -/
theorem read?_mergeAt_deployment (outer : String) {v : Json} (hkeys : v.hasDistinctKeys = true)
    {d : Deployment} {s s' : DeploymentSpec} (hspec : d.spec = some s)
    (h : ∀ w, w.hasDistinctKeys = true → DeploymentSpec.read? (levels - 1) w = some s →
      DeploymentSpec.read? (levels - 1) (mergeAt "spec" q w) = some s')
    (hread : Deployment.read? levels v = some d) :
    Deployment.read? levels (mergeAt outer (.obj [("spec", q)]) v) =
      some { d with spec := some s' } := by
  rw [Deployment.read?] at hread
  simp only [Option.bind_eq_bind, Option.bind_eq_some_iff, Option.pure_def] at hread
  obtain ⟨ms, hms, hread⟩ := hread
  obtain rfl := eq_obj_of_members? hms
  split at hread
  next => cases hread
  next htype =>
    simp only [Option.bind_eq_some_iff, Option.some.injEq] at hread
    obtain ⟨metadata, hmetadata, spec, hreadSpec, status, hstatus, rfl⟩ := hread
    obtain rfl : spec = some s := hspec
    have hmerged := field?_putMember_of_some rfl hkeys hreadSpec h
    have htype' : typeMatches (putMember "spec" (mergeAt "spec" q) ms) "apps/v1" "Deployment" =
        true := by
      rw [typeMatches_putMember (by decide) (by decide)]
      simpa using htype
    simp [Deployment.read?, mergeAt, Json.members?, mergeMembers, htype', field?_putMember_of_ne,
      hmetadata, hmerged, hstatus]

/-- A merge into the pod template of a deployment. -/
theorem ofJson?_merge_template {template : Json} {f : PodTemplate → PodTemplate}
    (h : ∀ levels, Amends (PodTemplate.read? levels) {} (mergeAt "template" template) f)
    {v : Json} (hkeys : v.hasDistinctKeys = true) {d : Deployment} {s : DeploymentSpec}
    (hspec : d.spec = some s) (hread : Deployment.ofJson? v = some d) :
    Deployment.ofJson? (merge (Patch.ofTemplate template) v) =
      some { d with spec := some { s with template := f s.template } } :=
  read?_mergeAt_deployment "" hkeys hspec
    (fun _ hw hreadSpec => read?_mergeAt_spec "spec" (h _) hw hreadSpec) hread

/-- **The merge of a patch into the document of a deployment** is read as what the patch makes of
the deployment. -/
theorem ofJson?_merge {p : Patch} {v : Json} (hkeys : v.hasDistinctKeys = true) {d : Deployment}
    (hread : Deployment.ofJson? v = some d) (hspec : d.spec.isSome)
    (hnames : ∀ changes, p = .images changes → ∀ change ∈ changes, change.1 ≠ "") :
    Deployment.ofJson? (merge p.toJson v) = some (p.apply d) := by
  obtain ⟨s, hs⟩ := Option.isSome_iff_exists.1 hspec
  rw [Patch.apply, hs]
  cases p with
  | restart time =>
      exact ofJson?_merge_template (fun _ => amends_templateMetadata _
        (amends_metadata _ (amends_annotations _ restartKey time.text))) hkeys hs hread
  | images changes =>
      exact ofJson?_merge_template (fun _ => amends_templateSpec _
        (amends_pod _ (amends_containers (hnames changes rfl)))) hkeys hs hread

end Deployments

end ImageRollout.Rollout
