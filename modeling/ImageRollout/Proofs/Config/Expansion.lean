import Mathlib.Data.List.TakeWhile
import ImageRollout.Config.Placeholder

/-!
# Texts cut at their placeholders

A text with placeholders is literal text, the first placeholder, literal text, the second one, and
so on.  Where placeholders could overlap, the one that begins first counts: nowhere in the literal
text before a placeholder could another one begin.  Every text is cut in exactly one way like this,
and what a text expands to can be told from how it is cut.

* `pieces_of_opens`, `pieces_of_not_opens`: what is read at the beginning of a text.
* `pieces_text`: a text that is cut at its leftmost placeholders is read in these pieces.
* `existsUnique_reads`: every text is cut in one way.
* `expand_of_reads`: what a text expands to.
-/

namespace ImageRollout.Config

/-- A name that a placeholder can have: some characters, and no closing brace. -/
def IsName (name : List Char) : Prop := name ≠ [] ∧ '\x7d' ∉ name

/-- A placeholder as it is written. -/
def written (name : List Char) : List Char := '$' :: '\x7b' :: (name ++ ['\x7d'])

/-- A placeholder stands at the beginning of the text. -/
def Opens (s : List Char) : Prop := ∃ name rest, IsName name ∧ s = written name ++ rest

/-- No placeholder begins in the text, even if some of what follows belonged to it. -/
def IsFree (literal rest : List Char) : Prop :=
  ∀ before after, literal = before ++ after → after ≠ [] → ¬ Opens (after ++ rest)

/-- A text cut at placeholders. -/
inductive Reading where
  /-- Literal text up to the end. -/
  | last (literal : List Char)
  /-- Literal text, a placeholder of the name, and what follows. -/
  | upTo (literal name : List Char) (rest : Reading)

namespace Reading

/-- The text that is cut. -/
def text : Reading → List Char
  | last literal => literal
  | upTo literal name rest => literal ++ (written name ++ rest.text)

/-- The names of the placeholders, in order. -/
def names : Reading → List String
  | last _ => []
  | upTo _ name rest => String.ofList name :: rest.names

/-- The text with a value in the place of each placeholder. -/
def fill (value : String → String) : Reading → List Char
  | last literal => literal
  | upTo literal name rest => literal ++ ((value (String.ofList name)).toList ++ rest.fill value)

/-- Each placeholder has a name, and begins at the first place behind the one before where a
placeholder can begin; behind the last one there is none. -/
def IsLeftmost : Reading → Prop
  | last literal => IsFree literal []
  | upTo literal name rest =>
    IsName name ∧ IsFree literal (written name ++ rest.text) ∧ rest.IsLeftmost

/-- The way in which a text is cut at its placeholders, from left to right. -/
structure Reads (r : Reading) (s : List Char) : Prop where
  text_eq : r.text = s
  isLeftmost : r.IsLeftmost

/-- The pieces of the text. -/
def toPieces : Reading → List Piece
  | last literal => literal.map .char
  | upTo literal name rest => literal.map .char ++ .placeholder name :: rest.toPieces

/-- The same with one more character in front. -/
def prepend (c : Char) : Reading → Reading
  | last literal => last (c :: literal)
  | upTo literal name rest => upTo (c :: literal) name rest

/-- Pieces put together. -/
def ofPieces : List Piece → Reading
  | [] => last []
  | .char c :: rest => (ofPieces rest).prepend c
  | .placeholder name :: rest => upTo [] name (ofPieces rest)

/-- Characters alone are a reading without a placeholder. -/
theorem ofPieces_last (literal : List Char) : ofPieces (literal.map .char) = last literal := by
  induction literal with
  | nil => rfl
  | cons c literal ih =>
      rw [List.map_cons, ofPieces, ih]
      rfl

/-- Characters in front of a placeholder are the literal before it. -/
theorem ofPieces_upTo (literal name : List Char) (rest : List Piece) :
    ofPieces (literal.map .char ++ .placeholder name :: rest) =
      upTo literal name (ofPieces rest) := by
  induction literal with
  | nil => rfl
  | cons c literal ih =>
      rw [List.map_cons, List.cons_append, ofPieces, ih]
      rfl

/-- **No way of cutting is lost in its pieces.** -/
theorem ofPieces_toPieces (r : Reading) : ofPieces r.toPieces = r := by
  induction r with
  | last literal => exact ofPieces_last literal
  | upTo literal name rest ih => rw [toPieces, ofPieces_upTo, ih]

end Reading

section Pieces

variable {c : Char} {literal name rest : List Char}

theorem isFree_nil : IsFree [] rest := by
  intro before after hcut hafter
  exact absurd (List.append_eq_nil_iff.1 hcut.symm).2 hafter

/-- A text is free of placeholders just if none is opened by its first character or its rest. -/
theorem isFree_cons : IsFree (c :: literal) rest ↔
    ¬ Opens (c :: (literal ++ rest)) ∧ IsFree literal rest := by
  constructor
  · intro h
    refine ⟨h [] (c :: literal) rfl (List.cons_ne_nil c literal), fun before after hcut => ?_⟩
    exact h (c :: before) after (by rw [hcut]; rfl)
  · intro ⟨hopens, h⟩ before after hcut hafter
    cases before with
    | nil =>
        obtain rfl : c :: literal = after := hcut
        exact hopens
    | cons d before => exact h before after (List.cons.inj hcut).2 hafter

/-- A placeholder begins with a dollar sign. -/
theorem isFree_of_dollar (h : '$' ∉ literal) : IsFree literal rest := by
  intro before after hcut hafter hplaceholder
  obtain ⟨name, rest', -, hopens⟩ := hplaceholder
  cases after with
  | nil => exact hafter rfl
  | cons c after =>
      obtain rfl : c = '$' := (List.cons.inj hopens).1
      exact h (hcut ▸ List.mem_append_right before List.mem_cons_self)

/-- A placeholder that is never closed is none. -/
theorem isFree_of_brace (h : '\x7d' ∉ literal ++ rest) : IsFree literal rest := by
  intro before after hcut hafter hplaceholder
  obtain ⟨name, rest', -, hopens⟩ := hplaceholder
  rw [hcut, List.append_assoc, hopens] at h
  simp [written] at h

/-- Up to its brace a name is taken whole. -/
theorem takeWhile_name (h : '\x7d' ∉ name) (rest : List Char) :
    (name ++ '\x7d' :: rest).takeWhile (· ≠ '\x7d') = name ∧
      (name ++ '\x7d' :: rest).dropWhile (· ≠ '\x7d') = '\x7d' :: rest := by
  have hall : ∀ c ∈ name, decide (c ≠ '\x7d') = true := by
    intro c hc
    refine decide_eq_true fun heq => h (heq ▸ hc)
  constructor
  · rw [List.takeWhile_append_of_pos hall]
    simp
  · rw [List.dropWhile_append_of_pos hall]
    simp

/-- **A placeholder at the beginning of a text is read whole.** -/
theorem pieces_of_opens (h : IsName name) :
    pieces (written name ++ rest) = .placeholder name :: pieces rest := by
  obtain ⟨htake, hdrop⟩ := takeWhile_name h.2 rest
  have hwritten : written name ++ rest = '$' :: '\x7b' :: (name ++ '\x7d' :: rest) := by
    simp [written]
  rw [hwritten, pieces, if_pos ⟨rfl, rfl⟩]
  simp only [List.drop_succ_cons, List.drop_zero, htake]
  split
  next c after hafter =>
    simp only [List.drop_succ_cons, List.drop_zero] at hafter
    rw [hdrop] at hafter
    cases hafter
    rw [if_neg h.1]
  next hnone =>
    simp only [List.drop_succ_cons, List.drop_zero] at hnone
    rw [hdrop] at hnone
    cases hnone

/-- **Where no placeholder stands, a character is read.** -/
theorem pieces_of_not_opens (h : ¬ Opens (c :: rest)) :
    pieces (c :: rest) = .char c :: pieces rest := by
  rw [pieces]
  split
  next hbegins =>
    obtain ⟨rfl, hbrace⟩ := hbegins
    obtain ⟨inside, rfl⟩ : ∃ inside, rest = '\x7b' :: inside := by
      cases rest with
      | nil => cases hbrace
      | cons d inside =>
          cases hbrace
          exact ⟨inside, rfl⟩
    simp only [List.drop_succ_cons, List.drop_zero]
    split
    next d after hafter =>
      simp only [List.drop_succ_cons, List.drop_zero] at hafter
      -- A name before the brace would make it a placeholder.
      refine if_pos (by_contra fun hname => h ⟨_, after, ⟨hname, ?_⟩, ?_⟩)
      · intro hmem
        simpa using List.mem_takeWhile_imp hmem
      · have hd : d = '\x7d' := by
          have hhead := List.head?_dropWhile_not (· ≠ '\x7d') inside
          rw [hafter] at hhead
          simpa using hhead
        have hsplit :
            inside.takeWhile (· ≠ '\x7d') ++ inside.dropWhile (· ≠ '\x7d') = inside :=
          List.takeWhile_append_dropWhile
        rw [hafter, hd] at hsplit
        simpa [written] using hsplit.symm
    next => rfl
  next => rfl

/-- A text that is free of placeholders is taken character by character. -/
theorem pieces_of_isFree (h : IsFree literal rest) :
    pieces (literal ++ rest) = literal.map .char ++ pieces rest := by
  induction literal with
  | nil => rfl
  | cons c literal ih =>
      obtain ⟨hopens, hfree⟩ := isFree_cons.1 h
      rw [List.cons_append, pieces_of_not_opens hopens, ih hfree]
      rfl

end Pieces

namespace Reading

/-- **A text that is cut at its leftmost placeholders is read in these pieces.** -/
theorem pieces_text {r : Reading} (h : r.IsLeftmost) : pieces r.text = r.toPieces := by
  induction r with
  | last literal =>
      have hread := pieces_of_isFree h
      rw [List.append_nil, pieces, List.append_nil] at hread
      exact hread
  | upTo literal name rest ih =>
      obtain ⟨hname, hfree, hrest⟩ := h
      rw [text, pieces_of_isFree hfree, pieces_of_opens hname, ih hrest]
      rfl

/-- A character in front of a reading stands in front of its text. -/
theorem text_prepend (c : Char) (r : Reading) : (r.prepend c).text = c :: r.text := by
  cases r <;> rfl

/-- A reading stays leftmost behind a character that opens nothing. -/
theorem isLeftmost_prepend {c : Char} {r : Reading} (hopens : ¬ Opens (c :: r.text))
    (h : r.IsLeftmost) : (r.prepend c).IsLeftmost := by
  cases r with
  | last literal => exact isFree_cons.2 ⟨by rwa [List.append_nil], h⟩
  | upTo literal name rest =>
      obtain ⟨hname, hfree, hrest⟩ := h
      exact ⟨hname, isFree_cons.2 ⟨hopens, hfree⟩, hrest⟩

/-- Every text can be cut at its placeholders from left to right. -/
theorem exists_reads (s : List Char) : ∃ r : Reading, r.Reads s := by
  by_cases hopens : Opens s
  · obtain ⟨name, rest, hname, rfl⟩ := hopens
    have : rest.length < (written name ++ rest).length := by
      simp only [written, List.length_append, List.length_cons]
      omega
    obtain ⟨r, hr⟩ := exists_reads rest
    exact ⟨upTo [] name r, by rw [text, hr.text_eq]; rfl, hname, isFree_nil, hr.isLeftmost⟩
  · cases s with
    | nil => exact ⟨last [], rfl, isFree_nil⟩
    | cons c rest =>
        obtain ⟨r, hr⟩ := exists_reads rest
        refine ⟨r.prepend c, by rw [text_prepend, hr.text_eq],
          isLeftmost_prepend ?_ hr.isLeftmost⟩
        rwa [hr.text_eq]
  termination_by s.length

/-- **Every text is cut in one way.** -/
theorem existsUnique_reads (s : List Char) :
    ∃ r : Reading, r.Reads s ∧ ∀ r' : Reading, r'.Reads s → r' = r := by
  obtain ⟨r, hr⟩ := exists_reads s
  refine ⟨r, hr, fun r' hr' => ?_⟩
  have hpieces : r'.toPieces = r.toPieces := by
    rw [← pieces_text hr'.isLeftmost, ← pieces_text hr.isLeftmost, hr'.text_eq, hr.text_eq]
  rw [← ofPieces_toPieces r', hpieces, ofPieces_toPieces]

section Expansion

variable {environment : Table String} {r : Reading}

/-- The names that are missing are those of the reading that the environment does not have. -/
theorem missing_toPieces (environment : Table String) (r : Reading) :
    missing environment r.toPieces =
      r.names.filter fun name => (environment.lookup name).isNone := by
  have hchars (literal : List Char) (rest : List Piece) :
      missing environment (literal.map .char ++ rest) = missing environment rest := by
    induction literal with
    | nil => rfl
    | cons c literal ih => exact ih
  induction r with
  | last literal =>
      have hlast := hchars literal []
      rw [List.append_nil] at hlast
      exact hlast
  | upTo literal name rest ih =>
      rw [toPieces, hchars, names, List.filter_cons, ← ih]
      cases hvalue : List.lookup (String.ofList name) environment with
      | none => simp [missing, Table.has, hvalue]
      | some value => simp [missing, Table.has, hvalue]

/-- Where no name is missing, the expansion fills the reading in. -/
theorem expanded_toPieces {value : String → String}
    (h : ∀ name ∈ r.names, environment.lookup name = some (value name)) :
    r.toPieces.flatMap (Piece.expanded environment) = r.fill value := by
  have hchars (literal : List Char) :
      (literal.map Piece.char).flatMap (Piece.expanded environment) = literal := by
    induction literal with
    | nil => rfl
    | cons c literal ih => exact congrArg (c :: ·) ih
  induction r with
  | last literal => exact hchars literal
  | upTo literal name rest ih =>
      obtain ⟨hname, hrest⟩ := List.forall_mem_cons.1 h
      rw [toPieces, List.flatMap_append, List.flatMap_cons, hchars, ih hrest, Piece.expanded,
        hname]
      rfl

/-- What a text expands to where all its placeholders have a value. -/
theorem expand_of_values {s : String} (hr : r.Reads s.toList) {value : String → String}
    (h : ∀ name ∈ r.names, environment.lookup name = some (value name)) :
    expand environment s = .ok (String.ofList (r.fill value)) := by
  have hnone : missing environment r.toPieces = [] := by
    rw [missing_toPieces, List.filter_eq_nil_iff]
    intro name hname
    simp [h name hname]
  rw [expand, ← hr.text_eq, pieces_text hr.isLeftmost]
  simp only [hnone, expanded_toPieces h]

/-- What is said of a text where some of its placeholders have no value. -/
theorem expand_of_missing {s : String} (hr : r.Reads s.toList)
    (h : ∃ name ∈ r.names, environment.lookup name = none) :
    expand environment s =
      .error (r.names.filter fun name => (environment.lookup name).isNone) := by
  obtain ⟨name, hname, hvalue⟩ := h
  have hmem : name ∈ missing environment r.toPieces := by
    rw [missing_toPieces]
    exact List.mem_filter.2 ⟨hname, by rw [hvalue]; rfl⟩
  rw [expand, ← hr.text_eq, pieces_text hr.isLeftmost, ← missing_toPieces]
  generalize missing environment r.toPieces = names at hmem
  cases names with
  | nil => cases hmem
  | cons => rfl

end Expansion

end Reading

/-- **What a text expands to.**  Every text is cut in one way at its leftmost placeholders.  Where
the environment has all their names, each is replaced by what the variable holds, as it is;
otherwise the names that it does not have are listed, in order and as often as they occur.  So a
text in which no placeholder begins stays as it is. -/
theorem expand_of_reads (environment : Table String) (s : String) :
    ∃ r : Reading, r.Reads s.toList ∧ (∀ r' : Reading, r'.Reads s.toList → r' = r) ∧
      (∀ value : String → String,
        (∀ name ∈ r.names, environment.lookup name = some (value name)) →
          expand environment s = .ok (String.ofList (r.fill value))) ∧
      ((∃ name ∈ r.names, environment.lookup name = none) →
        expand environment s =
          .error (r.names.filter fun name => (environment.lookup name).isNone)) ∧
      (IsFree s.toList [] → expand environment s = .ok s) := by
  obtain ⟨r, hr, hunique⟩ := Reading.existsUnique_reads s.toList
  refine ⟨r, hr, hunique, fun value h => Reading.expand_of_values hr h,
    Reading.expand_of_missing hr, fun hfree => ?_⟩
  have hplain : (Reading.last s.toList).Reads s.toList := ⟨rfl, hfree⟩
  have hsame : expand environment s =
      .ok (String.ofList ((Reading.last s.toList).fill id)) :=
    Reading.expand_of_values hplain (by simp [Reading.names])
  rwa [Reading.fill, String.ofList_toList] at hsame

/-- What a variable holds is not expanded again, and every missing name is listed. -/
theorem expand_of_reads_twice :
    expand [("A", "1"), ("B", "$\x7bA\x7d")] "x$\x7bA\x7dy$\x7bB\x7d$\x7b" =
        .ok "x1y$\x7bA\x7d$\x7b" ∧
      expand [("A", "1")] "$\x7bB\x7d$\x7bA\x7d$\x7bB\x7d" = .error ["B", "B"] := by
  constructor
  · obtain ⟨r, -, hunique, hvalues, -⟩ :=
      expand_of_reads [("A", "1"), ("B", "$\x7bA\x7d")] "x$\x7bA\x7dy$\x7bB\x7d$\x7b"
    obtain rfl : .upTo ['x'] ['A'] (.upTo ['y'] ['B'] (.last ['$', '\x7b'])) = r :=
      hunique _ ⟨by decide, ⟨by simp, by simp⟩, isFree_of_dollar (by decide),
        ⟨by simp, by simp⟩, isFree_of_dollar (by decide), isFree_of_brace (by decide)⟩
    exact hvalues (fun name => if name = "A" then "1" else "$\x7bA\x7d") (by decide)
  · obtain ⟨r, -, hunique, -, hmissing, -⟩ :=
      expand_of_reads [("A", "1")] "$\x7bB\x7d$\x7bA\x7d$\x7bB\x7d"
    obtain rfl : .upTo [] ['B'] (.upTo [] ['A'] (.upTo [] ['B'] (.last []))) = r :=
      hunique _ ⟨by decide, ⟨by simp, by simp⟩, isFree_nil, ⟨by simp, by simp⟩,
        isFree_nil, ⟨by simp, by simp⟩, isFree_nil, isFree_nil⟩
    exact hmissing (by decide)

example : expand [] "$\x7b\x7d$\x7ba" = .ok "$\x7b\x7d$\x7ba" := by cbv

end ImageRollout.Config
