import Mathlib.Data.List.Infix
import ImageRollout.Text.Split

/-!
# Texts in which a word is replaced

A text is cut wherever a word occurs in it, from the left, and is put together again with another
word in its place.  What stands around the other word could make an occurrence of the first one with
a part of it.  Where it cannot, no occurrence is left, and replacing the word again changes nothing.

* `replaces_replaceAll`: how a text is cut, and what it becomes.
* `not_isInfix_of_replaces`: when no occurrence is left.
* `replaceAll_replaceAll`: then replacing again changes nothing.
-/

namespace ImageRollout.Text

/-- A text with a word between parts that do not hold it, and the text of the same parts with
another word between them. -/
inductive Replaces (word new : List Char) : List Char → List Char → Prop
  | last {part : List Char} (h : ¬ word <:+: part) : Replaces word new part part
  | next {part s t : List Char} (h : ¬ word <:+: part) (rest : Replaces word new s t) :
      Replaces word new (part ++ (word ++ s)) (part ++ (new ++ t))

/-- No occurrence of the word begins in the other one, and none ends in it. -/
structure IsForeign (word new : List Char) : Prop where
  head_notMem : ∀ c ∈ word.head?, c ∉ new
  not_isPrefix : ∀ w ∈ word.tails, w ≠ [] → ¬ w <+: new
  length_le : word.length ≤ new.length

variable {word new s t : List Char} {head c : Char} {tail : List Char}

/-- One more character in front, where no occurrence begins with it. -/
theorem Replaces.cons (h : Replaces word new s t) (hc : ¬ word <+: c :: s) :
    Replaces word new (c :: s) (c :: t) := by
  have hpart {part : List Char} (hnone : ¬ word <:+: part) (hinitial : part <+: s) :
      ¬ word <:+: c :: part := by
    rw [List.infix_cons_iff]
    rintro (hword | hword)
    · exact hc (hword.trans (List.cons_prefix_cons.2 ⟨rfl, hinitial⟩))
    · exact hnone hword
  cases h with
  | last hnone => exact .last (hpart hnone List.prefix_rfl)
  | next hnone rest => exact .next (hpart hnone (List.prefix_append _ _)) rest

/-- **What replacing a word does**: the text is cut at the word, and joined with the new one. -/
theorem replaces_replaceAll (head : Char) (tail new s : List Char) :
    Replaces (head :: tail) new s (replaceAll head tail new s) := by
  fun_induction replaceAll head tail new s with
  | case1 => exact .last (by simp)
  | case2 rest after hafter _ ih =>
      obtain rfl := List.isPrefixOf?_eq_some_iff_append_eq.1 hafter
      have hnone : ¬ head :: tail <:+: [] := by simp
      exact .next hnone ih
  | case3 rest hnone ih =>
      refine ih.cons fun hword => ?_
      obtain ⟨after, rfl⟩ := (List.cons_prefix_cons.1 hword).2
      rw [List.isPrefixOf?_eq_some_iff_append_eq.2 rfl] at hnone
      cases hnone
  | case4 c rest hc ih =>
      refine ih.cons fun hword => ?_
      exact hc (List.cons_prefix_cons.1 hword).1.symm

/-- **No occurrence is left** where the new word has no part in any. -/
theorem not_isInfix_of_replaces (hforeign : IsForeign word new) (h : Replaces word new s t) :
    ¬ word <:+: t := by
  -- A part of the word that ends in the new one, or begins in it, is empty.
  have hbegins {w w' : List Char} (hw : word = w ++ w') (hin : w ⊆ new) : w = [] := by
    cases w with
    | nil => rfl
    | cons c w => exact absurd (hin List.mem_cons_self) (hforeign.head_notMem c (by simp [hw]))
  have hends {w w' rest : List Char} (hw : word = w' ++ w) (hinitial : w <+: new ++ rest) :
      w = [] := by
    have hsuffix : w <:+ word := ⟨w', hw.symm⟩
    by_contra hne
    refine hforeign.not_isPrefix w ((List.mem_tails w word).2 hsuffix) hne ?_
    exact List.prefix_of_prefix_length_le hinitial (List.prefix_append new rest)
      (hsuffix.length_le.trans hforeign.length_le)
  induction h with
  | last hnone => exact hnone
  | @next part s t hnone _ ih =>
      rw [List.infix_append_iff, List.infix_append_iff]
      rintro (hpart | (hnew | hrest | ⟨w, w', hw, hsuffix, hinitial⟩) |
        ⟨w, w', hw, hsuffix, hinitial⟩)
      · exact hnone hpart
      · have hword := hbegins (List.append_nil word).symm hnew.subset
        exact hnone (hword ▸ List.nil_infix)
      · exact ih hrest
      · obtain rfl := hbegins hw hsuffix.subset
        exact ih (hw ▸ hinitial.isInfix)
      · obtain rfl := hends hw hinitial
        rw [List.append_nil] at hw
        exact hnone (hw ▸ hsuffix.isInfix)

/-- A text without the word stays as it is. -/
theorem replaceAll_eq_self (h : ¬ head :: tail <:+: s) : replaceAll head tail new s = s := by
  fun_induction replaceAll head tail new s with
  | case1 => rfl
  | case2 rest after hafter =>
      obtain rfl := List.isPrefixOf?_eq_some_iff_append_eq.1 hafter
      exact absurd (List.prefix_append (head :: tail) after).isInfix h
  | case3 rest _ ih => rw [ih fun hword => h (List.infix_cons_iff.2 (.inr hword))]
  | case4 c rest _ ih => rw [ih fun hword => h (List.infix_cons_iff.2 (.inr hword))]

/-- **Replacing a word twice is replacing it once**, where the new word has no part in it. -/
theorem replaceAll_replaceAll (hforeign : IsForeign (head :: tail) new) (s : List Char) :
    replaceAll head tail new (replaceAll head tail new s) = replaceAll head tail new s :=
  replaceAll_eq_self (not_isInfix_of_replaces hforeign (replaces_replaceAll head tail new s))

end ImageRollout.Text
