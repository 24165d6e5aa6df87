import ImageRollout.Yaml.Token
import ImageRollout.Yaml.Token.Cursor

/-!
# Block scalars

A block scalar is the indented text below a `|` or `>`.  Its indentation is given, or is that of
its first line that is not empty.  The line breaks at its end are clipped to one, dropped or kept.
-/

namespace ImageRollout.Yaml

/-- What becomes of the line breaks at a block scalar's end. -/
inductive Chomping where
  | clip
  | strip
  | keep
  deriving DecidableEq

/-- The chomping that a sign asks for. -/
def chomping? (c : Char) : Option Chomping :=
  if c = '+' then some .keep else if c = '-' then some .strip else none

/-- The indentation and the chomping in a block scalar's header, and the place behind them. -/
def blockHeader? (c : Cursor) : Option (Nat × Chomping × Cursor) :=
  let digit? (c : Cursor) : Option (Nat × Cursor) :=
    match c.rest.head? with
    | some d =>
      if d.isDigit then (if d = '0' then none else some (d.toNat - 48, c.next)) else some (0, c)
    | none => some (0, c)
  match c.rest.head?.bind chomping? with
  | some chomping => (digit? c.next).map fun (n, c) => (n, chomping, c)
  | none => (digit? c).map fun (n, c) =>
    match c.rest.head?.bind chomping? with
    | some chomping => if n = 0 then (n, .clip, c) else (n, chomping, c.next)
    | none => (n, .clip, c)

/-- The empty lines before a line of a block scalar: the breaks, last first, the widest indentation
among them, and the place where the line begins.  A tab may not stand in for indentation. -/
def emptyLines? (indent : Nat) : Nat → List Char → Nat → Cursor →
    Option (List Char × Nat × Cursor)
  | 0, _, _, _ => none
  | fuel + 1, breaks, widest, c =>
    let inside := indent == 0 || c.column < indent
    match c.rest.head? with
    | some ' ' =>
      if inside then emptyLines? indent fuel breaks (max widest (c.column + 1)) c.next
      else some (breaks, widest, c)
    | some d =>
      if inside && d = '\t' then none
      else if isBreak d then emptyLines? indent fuel (d :: breaks) widest c.next
      else some (breaks, widest, c)
    | none => some (breaks, widest, c)

/-- A block scalar read so far. -/
structure BlockText where
  /-- The text, last character first. -/
  text : List Char := []
  /-- The line break behind the last line. -/
  break? : Option Char := none
  /-- The empty lines behind it, last first. -/
  empty : List Char := []
  /-- Whether the last line begins with white space. -/
  indented : Bool := false

/-- The lines of a block scalar with the given indentation. -/
def blockLines? (literal : Bool) (indent : Nat) : Nat → BlockText → Cursor →
    Option (BlockText × Cursor)
  | 0, _, _ => none
  | fuel + 1, b, c =>
    if c.column ≠ indent || c.rest.isEmpty then some (b, c)
    else
      let indented := c.rest.head?.any isBlank
      let joined :=
        if !literal && b.break? == some '\n' && !b.indented && !indented then
          (if b.empty.isEmpty then ' ' :: b.text else b.empty ++ b.text)
        else b.empty ++ b.break?.toList ++ b.text
      let (line, c) := c.takeWhile (fun d => !isBreak d)
      let lineBreak := c.rest.head?
      match emptyLines? indent (c.rest.length + 1) [] 0 c.next with
      | none => none
      | some (empty, _, c) =>
        blockLines? literal indent fuel
          { text := line.reverse ++ joined, break? := lineBreak, empty, indented } c

/-- The text with the line breaks at its end as the chomping has them. -/
def BlockText.chomped (b : BlockText) (chomping : Chomping) : String :=
  let tail := match chomping with
    | .strip => []
    | .clip => b.break?.toList
    | .keep => b.empty ++ b.break?.toList
  String.ofList (tail ++ b.text).reverse

/-- Reads a block scalar from behind its mark, inside a collection with the given indentation. -/
def blockScalar? (literal : Bool) (parent : Int) (c : Cursor) : Option (String × Cursor) := do
  let (width, chomping, c) ← blockHeader? c
  let c := c.skipWhile isBlank
  let c := if c.rest.head? = some '#' then c.skipWhile (fun d => !isBreak d) else c
  if c.rest.head?.any (fun d => !isBreak d) then none
  let c := c.next
  let fuel := c.rest.length + 2
  let given := if width = 0 then 0 else (if 0 ≤ parent then parent.toNat + width else width)
  let (empty, widest, c) ← emptyLines? given fuel [] 0 c
  let indent := if given = 0 then max (max widest (parent + 1).toNat) 1 else given
  let (b, c) ← blockLines? literal indent fuel { empty } c
  return (b.chomped chomping, c)

end ImageRollout.Yaml
