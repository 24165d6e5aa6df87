import Mathlib.Data.List.Nodup
import ImageRollout.Json.Basic
import ImageRollout.Table

/-!
# Paths into a document

A path leads from a document to a part of it, from every object on by a key and from every array on
by a position, written in digits.  What a path leads to can be changed, if there is something.

* `valueAt?`, `changeAt?`, `mapAt`: what stands at a path, and the document with it changed.
* `changeAt?_seq`, `changeAt?_comm`: two changes at one path are one change, and changes at two
  paths of one length may be made in any order.
* `changeAt?_eq_mapAt`: in a document without repeated keys a change is what it should be.
-/

namespace ImageRollout.Json

/-- Items by their positions, counted from a number on. -/
def positions (first : Nat) : List Json → List (String × Json)
  | [] => []
  | v :: rest => (toString first, v) :: positions (first + 1) rest

/-- The parts of a value, by the key or the position of each. -/
def parts : Json → List (String × Json)
  | obj members => members
  | arr items => positions 0 items
  | _ => []

/-- The value with other parts. -/
def withParts (ps : List (String × Json)) : Json → Json
  | obj _ => obj ps
  | arr _ => arr (ps.map (·.2))
  | v => v

/-- What stands at a path. -/
def valueAt? : List String → Json → Option Json
  | [], v => some v
  | key :: path, v => (v.parts.lookup key).bind (valueAt? path)

/-- Parts with the one of a key changed; nothing where there is none. -/
def changePart? (key : String) (f : Json → Option Json) :
    List (String × Json) → Option (List (String × Json))
  | [] => none
  | (k, v) :: rest =>
    if k = key then (f v).map fun w => (k, w) :: rest
    else (changePart? key f rest).map ((k, v) :: ·)

/-- The document with what stands at a path changed; nothing where nothing stands there. -/
def changeAt? (f : Json → Option Json) : List String → Json → Option Json
  | [], v => f v
  | key :: path, v => (changePart? key (changeAt? f path) v.parts).map (v.withParts ·)

/-- Parts with the one of a key changed, if there is one. -/
def mapPart (key : String) (f : Json → Json) (ps : List (String × Json)) :
    List (String × Json) :=
  ps.map fun p => (p.1, if p.1 = key then f p.2 else p.2)

/-- The document with what stands at a path changed, if anything does. -/
def mapAt (f : Json → Json) : List String → Json → Json
  | [], v => f v
  | key :: path, v => v.withParts (mapPart key (mapAt f path) v.parts)

mutual

/-- Whether no object repeats a key. -/
def hasDistinctKeys : Json → Bool
  | arr items => itemsHaveDistinctKeys items
  | obj members => (members.map (·.1)).Nodup && membersHaveDistinctKeys members
  | _ => true

/-- Whether no object among the items repeats a key. -/
def itemsHaveDistinctKeys : List Json → Bool
  | [] => true
  | v :: rest => v.hasDistinctKeys && itemsHaveDistinctKeys rest

/-- Whether no object among the members' values repeats a key. -/
def membersHaveDistinctKeys : List (String × Json) → Bool
  | [] => true
  | (_, v) :: rest => v.hasDistinctKeys && membersHaveDistinctKeys rest

end

section Positions

/-- Different positions are written differently. -/
theorem toString_injective {i j : Nat} (h : toString i = toString j) : i = j := by
  have hdigits : Nat.toDigits 10 i = Nat.toDigits 10 j := by
    simpa using congrArg String.toList h
  calc i = Nat.ofDigitChars 10 (Nat.toDigits 10 i) 0 := Nat.ofDigitChars_ten_toDigits.symm
    _ = Nat.ofDigitChars 10 (Nat.toDigits 10 j) 0 := by rw [hdigits]
    _ = j := Nat.ofDigitChars_ten_toDigits

/-- Items with their positions are still the items. -/
@[simp] theorem map_snd_positions (first : Nat) (items : List Json) :
    (positions first items).map (·.2) = items := by
  induction items generalizing first with
  | nil => rfl
  | cons v rest ih => rw [positions, List.map_cons, ih]

/-- Whatever stands at the positions in order are the items with their positions. -/
theorem positions_map_snd {first : Nat} {items : List Json} {ps : List (String × Json)}
    (h : ps.map (·.1) = (positions first items).map (·.1)) :
    positions first (ps.map (·.2)) = ps := by
  induction ps generalizing first items with
  | nil => rfl
  | cons p rest ih =>
      cases items with
      | nil => cases h
      | cons v others =>
          obtain ⟨hkey, hrest⟩ := List.cons_eq_cons.1 h
          rw [List.map_cons, positions, ih hrest]
          exact congrArg (· :: rest) (Prod.ext hkey.symm rfl)

/-- No position is before the first one. -/
theorem le_of_mem_positions {first i : Nat} {items : List Json}
    (h : toString i ∈ (positions first items).map (·.1)) : first ≤ i := by
  induction items generalizing first with
  | nil => cases h
  | cons v rest ih =>
      rw [positions, List.map_cons] at h
      rcases List.mem_cons.1 h with heq | hrest
      · exact Nat.le_of_eq (toString_injective heq).symm
      · have := ih hrest
        omega

/-- No two items have one position. -/
theorem nodup_positions (first : Nat) (items : List Json) :
    ((positions first items).map (·.1)).Nodup := by
  induction items generalizing first with
  | nil => exact List.nodup_nil
  | cons v rest ih =>
      rw [positions, List.map_cons, List.nodup_cons]
      refine ⟨fun h => ?_, ih (first + 1)⟩
      have := le_of_mem_positions h
      omega

/-- To change the part at a position is to change the item there. -/
theorem changePart?_positions (f : Json → Option Json) (first : Nat) (before : List Json)
    (v : Json) (after : List Json) :
    changePart? (toString (first + before.length)) f (positions first (before ++ v :: after)) =
      (f v).map fun w => positions first (before ++ w :: after) := by
  induction before generalizing first with
  | nil => simp [positions, changePart?]
  | cons u rest ih =>
      have hother : toString first ≠ toString (first + (rest.length + 1)) := by
        intro h
        have := toString_injective h
        omega
      have hrest := ih (first + 1)
      rw [show first + 1 + rest.length = first + (rest.length + 1) by omega] at hrest
      rw [List.cons_append, positions, List.length_cons, changePart?, if_neg hother, hrest,
        Option.map_map]
      rfl

/-- What is found at a position is the item there. -/
theorem lookup_positions (first index : Nat) (items : List Json) :
    (positions first items).lookup (toString (first + index)) = items[index]? := by
  induction items generalizing first index with
  | nil => rfl
  | cons v rest ih =>
      rw [positions, Table.lookup_cons]
      cases index with
      | zero => simp
      | succ index =>
          have hother : toString (first + (index + 1)) ≠ toString first := by
            intro h
            have := toString_injective h
            omega
          rw [if_neg hother, List.getElem?_cons_succ, ← ih (first + 1) index]
          congr 2
          omega

end Positions

section Parts

/-- A value is made up of its parts. -/
theorem withParts_parts (v : Json) : v.withParts v.parts = v := by
  cases v <;> simp [withParts, parts]

/-- The parts given last count. -/
theorem withParts_withParts (v : Json) (ps qs : List (String × Json)) :
    (v.withParts ps).withParts qs = v.withParts qs := by
  cases v <;> rfl

/-- The parts are those that were given, if they have the keys or positions of the old ones. -/
theorem parts_withParts {v : Json} {ps : List (String × Json)}
    (h : ps.map (·.1) = v.parts.map (·.1)) : (v.withParts ps).parts = ps := by
  cases v with
  | obj members => rfl
  | arr items => exact positions_map_snd h
  | _ => exact (List.map_eq_nil_iff.1 h).symm

/-- A change of a part leaves all keys as they are. -/
theorem keys_changePart? {key : String} {f : Json → Option Json} {ps qs : List (String × Json)}
    (h : changePart? key f ps = some qs) : qs.map (·.1) = ps.map (·.1) := by
  induction ps generalizing qs with
  | nil => cases h
  | cons p rest ih =>
      rw [changePart?] at h
      split at h
      · obtain ⟨w, -, rfl⟩ := Option.map_eq_some_iff.1 h
        rfl
      · obtain ⟨others, hothers, rfl⟩ := Option.map_eq_some_iff.1 h
        rw [List.map_cons, List.map_cons, ih hothers]

/-- Two changes of one part are one change. -/
theorem changePart?_seq (key : String) (f g : Json → Option Json) (ps : List (String × Json)) :
    (changePart? key f ps).bind (changePart? key g) =
      changePart? key (fun v => (f v).bind g) ps := by
  induction ps with
  | nil => rfl
  | cons p rest ih =>
      obtain ⟨k, v⟩ := p
      rw [changePart?, changePart?]
      by_cases hk : k = key
      · cases f v <;> simp [hk, changePart?]
      · simp only [hk, if_false, ← ih]
        cases hrest : changePart? key f rest <;> simp [changePart?, hk]

theorem changePart?_cons_of_ne {key k : String} (h : k ≠ key) (f : Json → Option Json)
    (v : Json) (ps : Option (List (String × Json))) :
    (ps.map ((k, v) :: ·)).bind (changePart? key f) =
      (ps.bind (changePart? key f)).map ((k, v) :: ·) := by
  cases ps with
  | none => rfl
  | some ps => simp [changePart?, h]

/-- Two parts may be changed in either order. -/
theorem changePart?_comm {key other : String} (h : key ≠ other) (f g : Json → Option Json)
    (ps : List (String × Json)) :
    (changePart? key f ps).bind (changePart? other g) =
      (changePart? other g ps).bind (changePart? key f) := by
  induction ps with
  | nil => rfl
  | cons p rest ih =>
      obtain ⟨k, v⟩ := p
      rw [changePart?, changePart?]
      by_cases hk : k = key
      · subst hk
        cases hf : f v <;> cases hrest : changePart? other g rest <;>
          simp [h, hf, hrest, changePart?]
      · by_cases ho : k = other
        · subst ho
          cases hg : g v <;> cases hrest : changePart? key f rest <;>
            simp [hk, hg, hrest, changePart?]
        · rw [if_neg hk, if_neg ho, changePart?_cons_of_ne ho, changePart?_cons_of_ne hk, ih]

/-- Where a part can be changed there is one, and the changed one is found in its place. -/
theorem lookup_changePart? {key : String} {f : Json → Option Json} {ps qs : List (String × Json)}
    (h : changePart? key f ps = some qs) :
    ∃ v w, ps.lookup key = some v ∧ f v = some w ∧ qs.lookup key = some w := by
  induction ps generalizing qs with
  | nil => cases h
  | cons p rest ih =>
      rw [changePart?] at h
      split at h
      next hk =>
        obtain ⟨w, hw, rfl⟩ := Option.map_eq_some_iff.1 h
        refine ⟨p.2, w, ?_, hw, ?_⟩
        · exact (Table.lookup_cons p.1 key p.2 rest).trans (if_pos hk.symm)
        · exact (Table.lookup_cons p.1 key w rest).trans (if_pos hk.symm)
      next hk =>
        obtain ⟨others, hothers, rfl⟩ := Option.map_eq_some_iff.1 h
        obtain ⟨v, w, hv, hw, hnew⟩ := ih hothers
        refine ⟨v, w, ?_, hw, ?_⟩
        · exact (Table.lookup_cons p.1 key p.2 rest).trans ((if_neg (Ne.symm hk)).trans hv)
        · exact (Table.lookup_cons p.1 key p.2 others).trans ((if_neg (Ne.symm hk)).trans hnew)

/-- A change that leaves a part as it is leaves all parts as they are. -/
theorem changePart?_some {key : String} {v : Json} {ps : List (String × Json)}
    (h : ps.lookup key = some v) {f : Json → Option Json} (hf : f v = some v) :
    changePart? key f ps = some ps := by
  induction ps with
  | nil => cases h
  | cons p rest ih =>
      rw [Table.lookup_cons] at h
      rw [changePart?]
      split at h
      next hk =>
        cases h
        rw [if_pos hk.symm, hf]
        rfl
      next hk =>
        rw [if_neg (Ne.symm hk), ih h]
        rfl

/-- Among parts with different keys a change is what it should be. -/
theorem changePart?_eq_mapPart {key : String} {v : Json} {ps : List (String × Json)}
    (hnodup : (ps.map (·.1)).Nodup) (h : ps.lookup key = some v) {f : Json → Option Json}
    {g : Json → Json} (hf : f v = some (g v)) :
    changePart? key f ps = some (mapPart key g ps) := by
  induction ps with
  | nil => cases h
  | cons p rest ih =>
      obtain ⟨hfresh, hrest⟩ := List.nodup_cons.1 hnodup
      rw [Table.lookup_cons] at h
      rw [changePart?, mapPart, List.map_cons]
      split at h
      next hk =>
        cases h
        have hsame : mapPart key g rest = rest := by
          refine (List.map_congr_left fun q hq => ?_).trans (List.map_id rest)
          have hother : q.1 ≠ key := by
            intro heq
            apply hfresh
            change p.1 ∈ rest.map (·.1)
            rw [← hk, ← heq]
            exact List.mem_map_of_mem hq
          rw [if_neg hother]
          rfl
        rw [if_pos hk.symm, if_pos hk.symm, hf]
        exact congrArg some (congrArg _ hsame.symm)
      next hk =>
        rw [if_neg (Ne.symm hk), if_neg (Ne.symm hk), ih hrest h]
        rfl

/-- A change of a part leaves all keys as they are. -/
theorem keys_mapPart (key : String) (f : Json → Json) (ps : List (String × Json)) :
    (mapPart key f ps).map (·.1) = ps.map (·.1) := by
  simp [mapPart]

theorem parts_withParts_mapPart (key : String) (f : Json → Json) (v : Json) :
    (v.withParts (mapPart key f v.parts)).parts = mapPart key f v.parts :=
  parts_withParts (keys_mapPart key f v.parts)

/-- What is found under the key is changed, and nothing else. -/
theorem lookup_mapPart (key other : String) (f : Json → Json) (ps : List (String × Json)) :
    (mapPart key f ps).lookup other =
      (ps.lookup other).map fun v => if other = key then f v else v := by
  induction ps with
  | nil => rfl
  | cons p rest ih =>
      obtain ⟨k, v⟩ := p
      rw [mapPart, List.map_cons, Table.lookup_cons, Table.lookup_cons]
      split
      next hk =>
        subst hk
        rfl
      next => exact ih

end Parts

section Paths

/-- Two changes one after the other, beginning in the same object or array. -/
theorem changeAt?_bind (key other : String) (f g : Json → Option Json) (p q : List String)
    (v : Json) :
    (changeAt? f (key :: p) v).bind (changeAt? g (other :: q)) =
      ((changePart? key (changeAt? f p) v.parts).bind
        (changePart? other (changeAt? g q))).map (v.withParts ·) := by
  rw [changeAt?]
  cases h : changePart? key (changeAt? f p) v.parts with
  | none => rfl
  | some ps =>
      change changeAt? g (other :: q) (v.withParts ps) = _
      rw [changeAt?, parts_withParts (keys_changePart? h)]
      refine congrArg (fun h => (changePart? other (changeAt? g q) ps).map h) ?_
      exact funext (withParts_withParts v ps)

/-- Two changes at one path are one change. -/
theorem changeAt?_seq (f g : Json → Option Json) (p : List String) (v : Json) :
    (changeAt? f p v).bind (changeAt? g p) = changeAt? (fun w => (f w).bind g) p v := by
  induction p generalizing v with
  | nil => rfl
  | cons key p ih =>
      rw [changeAt?_bind, changePart?_seq]
      simp only [ih]
      rfl

/-- **Changes at two paths of one length may be made in any order.** -/
theorem changeAt?_comm {p q : List String} (hne : p ≠ q) (hlength : p.length = q.length)
    (f g : Json → Option Json) (v : Json) :
    (changeAt? f p v).bind (changeAt? g q) = (changeAt? g q v).bind (changeAt? f p) := by
  induction p generalizing q v with
  | nil => exact absurd (List.length_eq_zero_iff.1 hlength.symm).symm hne
  | cons key p ih =>
      cases q with
      | nil => cases hlength
      | cons other q =>
          rw [changeAt?_bind, changeAt?_bind]
          by_cases hkey : key = other
          · subst hkey
            have hrest : p ≠ q := fun h => hne (congrArg (key :: ·) h)
            rw [changePart?_seq, changePart?_seq]
            simp only [ih hrest (Nat.succ.inj hlength)]
          · rw [changePart?_comm hkey]

/-- To change what stands at a path is to change, at its beginning, what stands at the rest. -/
theorem changeAt?_append (f : Json → Option Json) (p q : List String) (v : Json) :
    changeAt? f (p ++ q) v = changeAt? (changeAt? f q) p v := by
  induction p generalizing v with
  | nil => rfl
  | cons key p ih =>
      have hinner : changeAt? f (p ++ q) = changeAt? (changeAt? f q) p := funext ih
      rw [List.cons_append, changeAt?, changeAt?, hinner]

/-- What stands at a path stands at its rest below its beginning. -/
theorem valueAt?_append (p q : List String) (v : Json) :
    valueAt? (p ++ q) v = (valueAt? p v).bind (valueAt? q) := by
  induction p generalizing v with
  | nil => rfl
  | cons key p ih =>
      have hinner : valueAt? (p ++ q) = fun w => (valueAt? p w).bind (valueAt? q) := funext ih
      rw [List.cons_append, valueAt?, valueAt?, hinner, Option.bind_assoc]

theorem valueAt?_key (key : String) (v : Json) : valueAt? [key] v = v.parts.lookup key := by
  rw [valueAt?]
  cases v.parts.lookup key <;> rfl

/-- A change takes the place of what stood at its path. -/
theorem valueAt?_changeAt? {f : Json → Option Json} {p : List String} {v v' : Json}
    (h : changeAt? f p v = some v') :
    ∃ w w', valueAt? p v = some w ∧ f w = some w' ∧ valueAt? p v' = some w' := by
  induction p generalizing v v' with
  | nil => exact ⟨v, v', rfl, h, rfl⟩
  | cons key p ih =>
      obtain ⟨ps, hps, rfl⟩ := Option.map_eq_some_iff.1 h
      obtain ⟨u, u', hu, hchange, hu'⟩ := lookup_changePart? hps
      obtain ⟨w, w', hw, hf, hw'⟩ := ih hchange
      refine ⟨w, w', ?_, hf, ?_⟩
      · rw [valueAt?, hu]
        exact hw
      · rw [valueAt?, parts_withParts (keys_changePart? hps), hu']
        exact hw'

/-- What stands at a path may be left as it is. -/
theorem changeAt?_some {p : List String} {v w : Json} (h : valueAt? p v = some w) :
    changeAt? some p v = some v := by
  induction p generalizing v with
  | nil => rfl
  | cons key p ih =>
      obtain ⟨u, hu, hw⟩ := Option.bind_eq_some_iff.1 h
      rw [changeAt?, changePart?_some hu (ih hw), Option.map_some, withParts_parts]

/-- Several changes of what stands at a path are one. -/
theorem foldlM_changeAt? (fs : List (Json → Option Json)) {p : List String} {v w : Json}
    (h : valueAt? p v = some w) :
    fs.foldlM (fun v f => changeAt? f p v) v =
      changeAt? (fun w => fs.foldlM (fun w f => f w) w) p v := by
  induction fs generalizing v w with
  | nil => exact (changeAt?_some h).symm
  | cons f rest ih =>
      rw [List.foldlM_cons]
      simp only [List.foldlM_cons]
      rw [show changeAt? (fun w => f w >>= fun w => rest.foldlM (fun w f => f w) w) p v = _ from
        (changeAt?_seq f _ p v).symm]
      cases hfirst : changeAt? f p v with
      | none => rfl
      | some v' =>
          obtain ⟨-, w', -, -, hw'⟩ := valueAt?_changeAt? hfirst
          exact ih hw'

end Paths

section Distinct

/-- Items repeat no key if none of them does. -/
theorem itemsHaveDistinctKeys_iff (items : List Json) :
    itemsHaveDistinctKeys items = true ↔ ∀ v ∈ items, v.hasDistinctKeys = true := by
  induction items with
  | nil => simp [itemsHaveDistinctKeys]
  | cons v rest ih => simp [itemsHaveDistinctKeys, ih]

/-- Members repeat no key below them if none of their values does. -/
theorem membersHaveDistinctKeys_iff (members : List (String × Json)) :
    membersHaveDistinctKeys members = true ↔ ∀ p ∈ members, p.2.hasDistinctKeys = true := by
  induction members with
  | nil => simp [membersHaveDistinctKeys]
  | cons p rest ih => simp [membersHaveDistinctKeys, ih]

/-- No key is repeated if none is among the parts, and none below any of them. -/
theorem hasDistinctKeys_iff (v : Json) :
    v.hasDistinctKeys = true ↔
      (v.parts.map (·.1)).Nodup ∧ ∀ p ∈ v.parts, p.2.hasDistinctKeys = true := by
  cases v with
  | arr items =>
      rw [hasDistinctKeys, itemsHaveDistinctKeys_iff, parts,
        and_iff_right (nodup_positions 0 items)]
      have hitems := map_snd_positions 0 items
      conv => lhs; rw [← hitems]
      exact List.forall_mem_map
  | obj members => simp [hasDistinctKeys, membersHaveDistinctKeys_iff, parts]
  | _ => simp [hasDistinctKeys, parts]

/-- No key is repeated below a part. -/
theorem hasDistinctKeys_of_lookup {v w : Json} (h : v.hasDistinctKeys = true) {key : String}
    (hw : v.parts.lookup key = some w) : w.hasDistinctKeys = true :=
  ((hasDistinctKeys_iff v).1 h).2 _ (Table.mem_of_lookup hw)

/-- No key is repeated below a path. -/
theorem hasDistinctKeys_of_valueAt? {p : List String} {v w : Json}
    (h : v.hasDistinctKeys = true) (hw : valueAt? p v = some w) : w.hasDistinctKeys = true := by
  induction p generalizing v with
  | nil =>
      cases hw
      exact h
  | cons key p ih =>
      obtain ⟨u, hu, hrest⟩ := Option.bind_eq_some_iff.1 hw
      exact ih (hasDistinctKeys_of_lookup h hu) hrest

/-- **Without repeated keys a change is what it should be.** -/
theorem changeAt?_eq_mapAt {p : List String} {v w : Json} (h : v.hasDistinctKeys = true)
    (hw : valueAt? p v = some w) {f : Json → Option Json} {g : Json → Json}
    (hf : f w = some (g w)) : changeAt? f p v = some (mapAt g p v) := by
  induction p generalizing v with
  | nil =>
      cases hw
      exact hf
  | cons key p ih =>
      obtain ⟨u, hu, hrest⟩ := Option.bind_eq_some_iff.1 hw
      have hinner := ih (hasDistinctKeys_of_lookup h hu) hrest
      rw [changeAt?, changePart?_eq_mapPart ((hasDistinctKeys_iff v).1 h).1 hu hinner]
      rfl

/-- A change that leaves what stands at the path as it is leaves the document as it is. -/
theorem mapAt_eq_self {p : List String} {v : Json} (h : v.hasDistinctKeys = true)
    {g : Json → Json} (hg : ∀ w, valueAt? p v = some w → g w = w) : mapAt g p v = v := by
  induction p generalizing v with
  | nil => exact hg v rfl
  | cons key p ih =>
      obtain ⟨hnodup, hparts⟩ := (hasDistinctKeys_iff v).1 h
      have hsame : mapPart key (mapAt g p) v.parts = v.parts := by
        refine (List.map_congr_left fun q hq => ?_).trans (List.map_id v.parts)
        by_cases hkey : q.1 = key
        · have hlookup : v.parts.lookup key = some q.2 :=
            Table.lookup_of_mem hnodup (hkey ▸ hq)
          have hinner : mapAt g p q.2 = q.2 := ih (hparts q hq) fun w hw =>
            hg w (by rw [valueAt?, hlookup]; exact hw)
          rw [if_pos hkey, hinner]
          rfl
        · rw [if_neg hkey]
          rfl
      rw [mapAt, hsame, withParts_parts]

/-- A change that repeats no key leaves a document without repeated keys. -/
theorem hasDistinctKeys_mapAt {p : List String} {v : Json} (h : v.hasDistinctKeys = true)
    {g : Json → Json}
    (hg : ∀ w : Json, w.hasDistinctKeys = true → (g w).hasDistinctKeys = true) :
    (mapAt g p v).hasDistinctKeys = true := by
  induction p generalizing v with
  | nil => exact hg v h
  | cons key p ih =>
      obtain ⟨hnodup, hparts⟩ := (hasDistinctKeys_iff v).1 h
      rw [mapAt, hasDistinctKeys_iff, parts_withParts_mapPart, keys_mapPart]
      refine ⟨hnodup, fun q hq => ?_⟩
      obtain ⟨q, hmem, rfl⟩ := List.mem_map.1 hq
      change (if q.1 = key then mapAt g p q.2 else q.2).hasDistinctKeys = true
      split
      · exact ih (hparts q hmem)
      · exact hparts q hmem

/-- What stands at another path of the same length stays. -/
theorem valueAt?_mapAt_of_ne {p q : List String} (hne : p ≠ q) (hlength : p.length = q.length)
    (g : Json → Json) (v : Json) : valueAt? q (mapAt g p v) = valueAt? q v := by
  induction p generalizing q v with
  | nil => exact absurd (List.length_eq_zero_iff.1 hlength.symm).symm hne
  | cons key p ih =>
      cases q with
      | nil => cases hlength
      | cons other q =>
          rw [valueAt?, valueAt?, mapAt, parts_withParts_mapPart, lookup_mapPart]
          cases v.parts.lookup other with
          | none => rfl
          | some w =>
              change valueAt? q (if other = key then mapAt g p w else w) = valueAt? q w
              split
              next hkey =>
                subst hkey
                exact ih (fun h => hne (congrArg (other :: ·) h)) (Nat.succ.inj hlength) w
              next => rfl

end Distinct

end ImageRollout.Json
