import ImageRollout.Proofs.Json.Paths

/-!
# JSON patches

An operation of a JSON patch names a part of the document by a pointer.  Of the operations there
are, only that is described here which replaces a value by another; it fails where the pointer leads
to nothing.

* `pointerPath?_pointer`: a pointer leads along the path it was made from.
* `patch?_perm`: replacements at different places of one depth may be made in any order.
-/

namespace ImageRollout.Json

/-- A token of a pointer without its escapes: `~1` stands for a slash and `~0` for a tilde. -/
def unescape? : List Char → Option (List Char)
  | [] => some []
  | '~' :: '0' :: rest => (unescape? rest).map ('~' :: ·)
  | '~' :: '1' :: rest => (unescape? rest).map ('/' :: ·)
  | '~' :: _ => none
  | c :: rest => (unescape? rest).map (c :: ·)

/-- The path of a pointer: the tokens that follow its slashes. -/
def pointerPath? (pointer : String) : Option (List String) :=
  match pointer.toList.splitOn '/' with
  | [] :: tokens => tokens.mapM fun token => (unescape? token).map String.ofList
  | _ => none

/-- What an operation that replaces makes of a document. -/
def operate? (operation document : Json) : Option Json :=
  match operation.get? "op", operation.get? "path", operation.get? "value" with
  | some (str "replace"), some (str pointer), some value =>
    (pointerPath? pointer).bind fun path => changeAt? (fun _ => some value) path document
  | _, _, _ => none

/-- What a patch makes of a document, operation by operation. -/
def patch? (operations : List Json) (document : Json) : Option Json :=
  operations.foldlM (fun v operation => operate? operation v) document

/-- A key that stands in a pointer as it is. -/
def IsPlain (key : String) : Prop := '/' ∉ key.toList ∧ '~' ∉ key.toList

instance (key : String) : Decidable (IsPlain key) := inferInstanceAs (Decidable (_ ∧ _))

theorem unescape?_of_plain {s : List Char} (h : '~' ∉ s) : unescape? s = some s := by
  induction s with
  | nil => rfl
  | cons c rest ih =>
      obtain ⟨hc, hrest⟩ := not_or.1 (List.mem_cons.not.1 h)
      rw [unescape?, ih hrest]
      · rfl
      · rintro rest rfl
        exact absurd rfl hc
      · rintro rest rfl
        exact absurd rfl hc
      · rintro rfl
        exact absurd rfl hc

theorem isPlain_toString (n : Nat) : IsPlain (toString n) := by
  have hdigits : ∀ c ∈ (toString n).toList, c.isDigit = true := by
    intro c hc
    rw [Nat.toString_eq_repr, Nat.toList_repr] at hc
    exact Nat.isDigit_of_mem_toDigits (by decide) (by decide) hc
  exact ⟨fun h => absurd (hdigits _ h) (by decide), fun h => absurd (hdigits _ h) (by decide)⟩

theorem splitOn_tokens {first : List Char} {tokens : List (List Char)} (hfirst : '/' ∉ first)
    (h : ∀ token ∈ tokens, '/' ∉ token) :
    (first ++ tokens.flatMap ('/' :: ·)).splitOn '/' = first :: tokens := by
  induction tokens generalizing first with
  | nil => simpa using List.splitOn_eq_singleton hfirst
  | cons token rest ih =>
      obtain ⟨htoken, hrest⟩ := List.forall_mem_cons.1 h
      rw [List.flatMap_cons, List.cons_append, List.splitOn_append_cons_self_of_not_mem hfirst,
        ih htoken hrest]

/-- **A pointer leads along the path it was made from.** -/
theorem pointerPath?_join {path : List String} (h : ∀ key ∈ path, IsPlain key) :
    pointerPath? (String.join (path.map ("/" ++ ·))) = some path := by
  have hsplit : (String.join (path.map ("/" ++ ·))).toList.splitOn '/' =
      [] :: path.map String.toList := by
    have hslashes : ∀ token ∈ path.map String.toList, '/' ∉ token := by
      intro token htoken
      obtain ⟨key, hkey, rfl⟩ := List.mem_map.1 htoken
      exact (h key hkey).1
    rw [← splitOn_tokens List.not_mem_nil hslashes]
    simp [String.toList_join, List.flatMap_map]
  have htokens : ∀ keys : List String, (∀ key ∈ keys, IsPlain key) →
      ((keys.map String.toList).mapM fun token => (unescape? token).map String.ofList) =
        some keys := by
    intro keys hkeys
    induction keys with
    | nil => rfl
    | cons key rest ih =>
        obtain ⟨hkey, hrest⟩ := List.forall_mem_cons.1 hkeys
        simp [unescape?_of_plain hkey.2, ih hrest]
  rw [pointerPath?, hsplit]
  exact htokens path h

/-- Replacements, each by the path to what is replaced and the new value. -/
def replaceAll? (edits : List (List String × Json)) (document : Json) : Option Json :=
  edits.foldlM (fun v edit => changeAt? (fun _ => some edit.2) edit.1 v) document

theorem replaceAll?_cons (edit : List String × Json) (edits : List (List String × Json))
    (document : Json) :
    replaceAll? (edit :: edits) document =
      (changeAt? (fun _ => some edit.2) edit.1 document).bind (replaceAll? edits) :=
  List.foldlM_cons

theorem replaceAll?_append (earlier later : List (List String × Json)) (document : Json) :
    replaceAll? (earlier ++ later) document =
      (replaceAll? earlier document).bind (replaceAll? later) :=
  List.foldlM_append

/-- Replacements below what stands at a path change that alone. -/
theorem replaceAll?_below {p : List String} {document v : Json} (h : valueAt? p document = some v)
    (edits : List (List String × Json)) :
    replaceAll? (edits.map fun e => (p ++ e.1, e.2)) document =
      changeAt? (replaceAll? edits) p document := by
  have hmerged := foldlM_changeAt?
    (edits.map fun e => changeAt? (fun _ => some e.2) e.1) h
  rw [List.foldlM_map] at hmerged
  simp only [List.foldlM_map] at hmerged
  rw [replaceAll?, List.foldlM_map]
  simp only [changeAt?_append]
  exact hmerged

/-- **Replacements at different places of one depth may be made in any order.** -/
theorem replaceAll?_perm {edits order : List (List String × Json)} (h : order.Perm edits)
    (hnodup : (edits.map (·.1)).Nodup) {depth : Nat} (hdepth : ∀ e ∈ edits, e.1.length = depth)
    (document : Json) : replaceAll? order document = replaceAll? edits document := by
  induction h generalizing document with
  | nil => rfl
  | cons e _ ih =>
      have hrest := ih (List.nodup_cons.1 hnodup).2 fun e he => hdepth e (List.mem_cons_of_mem _ he)
      rw [replaceAll?_cons, replaceAll?_cons]
      exact congrArg _ (funext hrest)
  | swap e e' rest =>
      have hne : e'.1 ≠ e.1 := fun heq =>
        (List.nodup_cons.1 hnodup).1 (List.mem_cons.2 (.inl heq.symm))
      have hlength : e'.1.length = e.1.length :=
        (hdepth e' (by simp)).trans (hdepth e (by simp)).symm
      have hcomm := changeAt?_comm hne hlength (fun _ => some e'.2) (fun _ => some e.2) document
      calc replaceAll? (e' :: e :: rest) document
          = ((changeAt? (fun _ => some e'.2) e'.1 document).bind
              (changeAt? (fun _ => some e.2) e.1)).bind (replaceAll? rest) := by
            rw [replaceAll?_cons, Option.bind_assoc]
            rfl
        _ = ((changeAt? (fun _ => some e.2) e.1 document).bind
              (changeAt? (fun _ => some e'.2) e'.1)).bind (replaceAll? rest) := by rw [hcomm]
        _ = replaceAll? (e :: e' :: rest) document := by
            rw [replaceAll?_cons, Option.bind_assoc]
            rfl
  | trans first second ih₁ ih₂ =>
      have hmiddle := (second.map (·.1)).nodup_iff.2 hnodup
      have hsame := ih₁ hmiddle fun e he => hdepth e (second.mem_iff.1 he)
      exact (hsame document).trans (ih₂ hnodup hdepth document)

end ImageRollout.Json
