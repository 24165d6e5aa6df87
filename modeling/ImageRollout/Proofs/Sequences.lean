import Mathlib.Data.List.Basic

/-!
# Sequences

Histories, records and orders of turns grow at their end.  What stands somewhere in such a sequence
is its last member, or it stood there before.  What is gone through in order is gone through up to
the first at which something happens.
-/

namespace ImageRollout

/-- A place in a list with a new last member is a place in the list or the last one. -/
theorem split_concat {α : Type} {before after l : List α} {x y : α}
    (h : l ++ [y] = before ++ x :: after) :
    (l = before ∧ y = x ∧ after = []) ∨
      ∃ others, after = others ++ [y] ∧ l = before ++ x :: others := by
  rcases List.eq_nil_or_concat' after with rfl | ⟨others, z, rfl⟩
  · obtain ⟨hl, hx⟩ := List.append_inj' h rfl
    cases hx
    exact .inl ⟨hl, rfl, rfl⟩
  · rw [← List.cons_append, ← List.append_assoc] at h
    obtain ⟨hl, hz⟩ := List.append_inj' h rfl
    cases hz
    exact .inr ⟨others, rfl, hl⟩

/-- A list has one first place of a member. -/
theorem eq_of_first {α : Type} {x : α} {before after before' after' : List α}
    (h : before ++ x :: after = before' ++ x :: after') (hfirst : x ∉ before)
    (hfirst' : x ∉ before') : before = before' := by
  induction before generalizing before' with
  | nil =>
      cases before' with
      | nil => rfl
      | cons y rest =>
          obtain ⟨rfl, -⟩ := List.cons.inj h
          exact absurd List.mem_cons_self hfirst'
  | cons y rest ih =>
      cases before' with
      | nil =>
          obtain ⟨rfl, -⟩ := List.cons.inj h
          exact absurd List.mem_cons_self hfirst
      | cons z rest' =>
          obtain ⟨rfl, htail⟩ := List.cons.inj h
          rw [ih htail (fun hmem => hfirst (List.mem_cons_of_mem _ hmem))
            fun hmem => hfirst' (List.mem_cons_of_mem _ hmem)]

/-- From the first for which `p` holds on it holds of all, exactly if it comes late everywhere. -/
theorem forall_dropWhile_iff {α : Type} (p : α → Bool) (l : List α) :
    (∀ x ∈ l.dropWhile (!p ·), p x = true) ↔
      l.Pairwise fun x y => p x = true → p y = true := by
  induction l with
  | nil => simp
  | cons x rest ih =>
      cases hx : p x with
      | true =>
          rw [List.dropWhile_cons_of_neg (by simp [hx]), List.pairwise_cons]
          constructor
          · intro hall
            have hrest : ∀ y ∈ rest, p y = true :=
              fun y hy => hall y (List.mem_cons_of_mem _ hy)
            refine ⟨fun y hy _ => hrest y hy, List.pairwise_iff_forall_sublist.2 ?_⟩
            intro a b hsub _
            exact hrest b (hsub.subset (by simp))
          · rintro ⟨hfirst, -⟩ y hy
            rcases List.mem_cons.1 hy with rfl | hmem
            · exact hx
            · exact hfirst y hmem hx
      | false =>
          rw [List.dropWhile_cons_of_pos (by simp [hx]), ih, List.pairwise_cons]
          simp [hx]

end ImageRollout
