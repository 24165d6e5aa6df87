/-!
# Names in order

Sets of names are listed in ascending order of their code points, each name once.

* `mem_ascending`, `pairwise_ascending`: the same names, and each less than all after it.
-/

namespace ImageRollout.Text

/-- Adds a name to an ascending list, unless it is there. -/
def insertName (name : String) : List String → List String
  | [] => [name]
  | n :: rest =>
    if name < n then name :: n :: rest
    else if name = n then n :: rest
    else n :: insertName name rest

/-- The names of a list in ascending order, each once. -/
def ascending (names : List String) : List String := names.foldr insertName []

theorem mem_insertName {a name : String} {names : List String} :
    a ∈ insertName name names ↔ a = name ∨ a ∈ names := by
  induction names with
  | nil => simp [insertName]
  | cons n rest ih => grind [insertName]

/-- Putting names in order neither loses nor adds one. -/
theorem mem_ascending {a : String} {names : List String} :
    a ∈ ascending names ↔ a ∈ names := by
  induction names with
  | nil => simp [ascending]
  | cons n rest ih =>
    have : a ∈ ascending (n :: rest) ↔ a = n ∨ a ∈ ascending rest := mem_insertName
    simp [this, ih]

theorem pairwise_insertName (name : String) {names : List String} (h : names.Pairwise (· < ·)) :
    (insertName name names).Pairwise (· < ·) := by
  induction names with
  | nil => simp [insertName]
  | cons n rest ih =>
    obtain ⟨hhead, hrest⟩ := List.pairwise_cons.1 h
    rw [insertName]
    split
    next hlt =>
      refine List.pairwise_cons.2 ⟨fun a ha => ?_, h⟩
      rcases List.mem_cons.1 ha with rfl | ha
      · exact hlt
      · exact String.lt_trans hlt (hhead a ha)
    next hnlt =>
      split
      next => exact h
      next hne =>
        refine List.pairwise_cons.2 ⟨fun a ha => ?_, ih hrest⟩
        rcases mem_insertName.1 ha with rfl | ha
        · exact Std.lt_of_le_of_ne (Std.not_lt.1 hnlt) (Ne.symm hne)
        · exact hhead a ha

/-- Names in order strictly ascend. -/
theorem pairwise_ascending (names : List String) : (ascending names).Pairwise (· < ·) := by
  induction names with
  | nil => exact .nil
  | cons n rest ih => exact pairwise_insertName n ih

/-- Names in order are listed once each. -/
theorem nodup_ascending (names : List String) : (ascending names).Nodup := by
  refine (pairwise_ascending names).imp ?_
  intro a b hlt heq
  exact String.lt_irrefl b (heq ▸ hlt)

/-- The entries of a list in ascending order of their keys, those of one key in the order of the
list. -/
def sortByKey {α : Type} (key : α → String) (entries : List α) : List α :=
  entries.mergeSort fun a b => !(key b < key a)

end ImageRollout.Text
