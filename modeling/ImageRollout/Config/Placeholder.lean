import ImageRollout.Table

/-!
# Placeholders

A configuration may hold placeholders, a name between `${` and the next `}`, which stand for
variables of the environment.  They are replaced once and from left to right; what a variable holds
is put in as it is.
-/

namespace ImageRollout.Config

/-- A piece of a text with placeholders. -/
inductive Piece where
  | char (c : Char)
  | placeholder (name : List Char)
  deriving DecidableEq, Repr

theorem length_dropWhile_le {p : Char → Bool} (s : List Char) :
    (s.dropWhile p).length ≤ s.length :=
  (List.dropWhile_sublist p).length_le

/-- The pieces of a text.  A name is not empty and ends at the first closing brace. -/
def pieces : List Char → List Piece
  | [] => []
  | c :: rest =>
    if c = '$' ∧ rest.head? = some '\x7b' then
      let name := (rest.drop 1).takeWhile (· ≠ '\x7d')
      match h : (rest.drop 1).dropWhile (· ≠ '\x7d') with
      | _ :: after =>
        if name = [] then .char c :: pieces rest
        else
          have : after.length < rest.length + 1 := by
            have h1 := length_dropWhile_le (p := (· ≠ '\x7d')) (rest.drop 1)
            rw [h] at h1
            simp only [List.length_cons, List.length_drop] at h1
            omega
          .placeholder name :: pieces after
      | [] => .char c :: pieces rest
    else .char c :: pieces rest
  termination_by s => s.length

/-- The placeholders of a text that the environment does not have, in order. -/
def missing (environment : Table String) (ps : List Piece) : List String :=
  ps.filterMap fun
    | .char _ => none
    | .placeholder name =>
      if environment.has (String.ofList name) then none else some (String.ofList name)

/-- The variables for which a text has placeholders. -/
def placeholders (s : String) : List String :=
  (pieces s.toList).filterMap fun
    | .char _ => none
    | .placeholder name => some (String.ofList name)

/-- What a piece is replaced by. -/
def Piece.expanded (environment : Table String) : Piece → List Char
  | char c => [c]
  | placeholder name => ((environment.lookup (String.ofList name)).getD "").toList

/-- The text with its placeholders replaced, or the names that are missing. -/
def expand (environment : Table String) (s : String) : Except (List String) String :=
  let ps := pieces s.toList
  match missing environment ps with
  | [] => .ok (String.ofList (ps.flatMap (Piece.expanded environment)))
  | names => .error names

end ImageRollout.Config
