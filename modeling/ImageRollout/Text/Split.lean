/-!
# Cutting and joining text

Cuts on lists of characters that the readers of image references, names and URLs share: at the
last occurrence of a separator, around the ends, and at every occurrence of a word.

* `splitLast?_eq_some_iff`: the cut at the last separator is the only one whose second part does
  not hold the separator.
-/

namespace ImageRollout.Text

/-- What stands before and after the last `sep`; nothing where `sep` does not occur. -/
def splitLast? (sep : Char) : List Char → Option (List Char × List Char)
  | [] => none
  | c :: rest =>
    match splitLast? sep rest with
    | some (before, after) => some (c :: before, after)
    | none => if c = sep then some ([], rest) else none

/-- A text without the separator is not cut. -/
theorem splitLast?_eq_none_iff {sep : Char} {s : List Char} :
    splitLast? sep s = none ↔ sep ∉ s := by
  induction s with
  | nil => simp [splitLast?]
  | cons c rest ih =>
    rw [splitLast?]
    cases h : splitLast? sep rest with
    | some p => grind
    | none => grind

/-- The cut at the last separator leaves none behind it, and no other cut does. -/
theorem splitLast?_eq_some_iff {sep : Char} {s before after : List Char} :
    splitLast? sep s = some (before, after) ↔ s = before ++ sep :: after ∧ sep ∉ after := by
  induction s generalizing before with
  | nil => simp [splitLast?]
  | cons c rest ih =>
    have hnone := @splitLast?_eq_none_iff sep rest
    rw [splitLast?]
    cases before with
    | nil => cases h : splitLast? sep rest <;> grind
    | cons b bs =>
      have htail := @ih bs
      cases h : splitLast? sep rest <;> grind

/-- The text without any `sep` at either end. -/
def trimEnds (sep : Char) (s : List Char) : List Char :=
  ((s.dropWhile (· = sep)).reverse.dropWhile (· = sep)).reverse

theorem length_le_of_isPrefixOf? {word s after : List Char} (h : word.isPrefixOf? s = some after) :
    after.length ≤ s.length := by
  induction word generalizing s with
  | nil =>
    cases Option.some.inj h
    exact Nat.le_refl _
  | cons w ws ih =>
    cases s with
    | nil => cases h
    | cons c cs =>
      change (if w == c then ws.isPrefixOf? cs else none) = some after at h
      split at h
      · have := ih h
        simp only [List.length_cons]
        omega
      · cases h

/-- The text with every occurrence of the word `head :: tail` replaced, from the left and without
overlaps. -/
def replaceAll (head : Char) (tail new : List Char) : List Char → List Char
  | [] => []
  | c :: rest =>
    if c = head then
      match h : tail.isPrefixOf? rest with
      | some after =>
        have := length_le_of_isPrefixOf? h
        new ++ replaceAll head tail new after
      | none => c :: replaceAll head tail new rest
    else c :: replaceAll head tail new rest
  termination_by s => s.length

/-- The parts joined with one `sep` between neighbours. -/
def joinWith (sep : Char) (parts : List (List Char)) : List Char :=
  List.intercalate [sep] parts

end ImageRollout.Text
