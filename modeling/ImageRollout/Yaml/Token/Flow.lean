import ImageRollout.Yaml.Token.Cursor

/-!
# Scalars in one piece

Plain and quoted scalars may run over several lines.  White space within a line is kept; a single
line break becomes a space, and of several the first is dropped.  In double quotes a backslash
before a line break joins the lines without a space.
-/

namespace ImageRollout.Yaml

/-- White space that has been read and not yet joined to the text. -/
inductive Gap where
  | none
  /-- White space within a line, last first. -/
  | spaces (blanks : List Char)
  /-- Line breaks: the first, if it counts, and the others, last first. -/
  | breaks (first : Option Char) (more : List Char)

namespace Gap

/-- The gap with one more blank or line break. -/
def push (c : Char) : Gap → Gap
  | none => if isBreak c then breaks (some c) [] else spaces [c]
  | spaces blanks => if isBreak c then breaks (some c) [] else spaces (c :: blanks)
  | breaks first more => if isBreak c then breaks first (c :: more) else breaks first more

/-- What the gap adds to a text, last character first. -/
def folded : Gap → List Char
  | none => []
  | spaces blanks => blanks
  | breaks (some '\n') [] => [' ']
  | breaks (some '\n') more => more
  | breaks (some c) more => more ++ [c]
  | breaks Option.none more => more

/-- Whether the gap holds a line break. -/
def hasBreak : Gap → Bool
  | breaks .. => true
  | _ => false

end Gap

/-- A scalar read so far: its text, last character first, the gap behind it, and the number of
characters read. -/
structure Folding where
  text : List Char := []
  gap : Gap := .none
  length : Nat := 0
  column : Nat

namespace Folding

/-- The scalar with a character of white space. -/
def blank (c : Char) (f : Folding) : Folding :=
  { f with
    gap := f.gap.push c, length := f.length + 1, column := if isBreak c then 0 else f.column + 1 }

/-- The scalar with a character of its text that took so many characters to write. -/
def push (c : Char) (width : Nat) (f : Folding) : Folding :=
  { text := c :: (f.gap.folded ++ f.text), gap := .none, length := f.length + width
    column := f.column + width }

/-- The text of the scalar with the gap behind it. -/
def closed (f : Folding) : String := String.ofList (f.gap.folded ++ f.text).reverse

/-- The text of the scalar without the gap behind it. -/
def trimmed (f : Folding) : String := String.ofList f.text.reverse

end Folding

/-- The marks that end a plain scalar inside a flow collection. -/
def isFlowMark (c : Char) : Bool :=
  c = ',' || c = '[' || c = ']' || c = '\x7b' || c = '\x7d'

/-- Reads a plain scalar up to the colon, comment, mark, document limit or lesser indentation that
ends it.  Nothing where it is not allowed to go on as it does. -/
def plain? (inFlow : Bool) (indent : Int) : List Char → Folding → Option Folding
  | [], f => some f
  | c :: rest, f =>
    if isBlank c || isBreak c then
      if c = '\t' && f.gap.hasBreak && (f.column : Int) < indent then none
      else plain? inFlow indent rest (f.blank c)
    else
      let afterGap := match f.gap with
        | .none => f.length == 0
        | _ => true
      let ends := afterGap && (c = '#' || (f.column == 0 && isDocumentLimit (c :: rest)) ||
        (!inFlow && f.gap.hasBreak && (f.column : Int) < indent))
      if ends then some f
      else if inFlow && c = ':' && rest.head?.any (fun d => isFlowMark d || d = '?') then none
      else if (c = ':' && endsWord rest) || (inFlow && isFlowMark c) then some f
      else plain? inFlow indent rest (f.push c 1)

/-- Reads a scalar in single quotes from behind the opening quote to behind the closing one. -/
def singleQuoted? : List Char → Folding → Option Folding
  | [], _ => none
  | '\'' :: '\'' :: rest, f => singleQuoted? rest (f.push '\'' 2)
  | c :: rest, f =>
    if f.column == 0 && isDocumentLimit (c :: rest) then none
    else if c = '\'' then some { f with length := f.length + 1 }
    else if isBlank c || isBreak c then singleQuoted? rest (f.blank c)
    else singleQuoted? rest (f.push c 1)

/-- The character that a one-letter escape in double quotes stands for. -/
def escaped? (c : Char) : Option Char :=
  [('0', '\x00'), ('a', '\x07'), ('b', '\x08'), ('t', '\t'), ('\t', '\t'), ('n', '\n'),
    ('v', '\x0b'), ('f', '\x0c'), ('r', '\r'), ('e', '\x1b'), (' ', ' '), ('"', '"'), ('/', '/'),
    ('\\', '\\'), ('N', '\u0085'), ('_', '\u00a0'), ('L', '\u2028'), ('P', '\u2029')].lookup c

/-- The number of hexadecimal digits behind an escape letter. -/
def escapeWidth? (c : Char) : Option Nat := [('x', 2), ('u', 4), ('U', 8)].lookup c

/-- The value of a hexadecimal digit. -/
def hexDigit? (c : Char) : Option Nat :=
  if c.isDigit then some (c.toNat - 48)
  else if 'a' ≤ c && c ≤ 'f' then some (c.toNat - 87)
  else if 'A' ≤ c && c ≤ 'F' then some (c.toNat - 55)
  else none

/-- The character of a code point; surrogates and what lies beyond Unicode have none. -/
def charOfCode? (n : Nat) : Option Char :=
  if n < 0xD800 || (0xE000 ≤ n && n < 0x110000) then some (Char.ofNat n) else none

/-- Where the reading of double quotes stands. -/
inductive Escape where
  | outside
  /-- Behind a backslash. -/
  | letter
  /-- Inside a code of so many digits, of which some are left. -/
  | code (width left value : Nat)

/-- Reads a scalar in double quotes from behind the opening quote to behind the closing one. -/
def doubleQuoted? : List Char → Escape → Folding → Option Folding
  | [], _, _ => none
  | c :: rest, .code width left value, f =>
    match hexDigit? c with
    | none => none
    | some d =>
      let value := 16 * value + d
      if left ≤ 1 then
        match charOfCode? value with
        | some e => doubleQuoted? rest .outside (f.push e (width + 2))
        | none => none
      else doubleQuoted? rest (.code width (left - 1) value) f
  | c :: rest, .letter, f =>
    if isBreak c then
      let f := { f with text := f.gap.folded ++ f.text, gap := .breaks none [] }
      doubleQuoted? rest .outside { f with length := f.length + 2, column := 0 }
    else match escaped? c, escapeWidth? c with
      | some e, _ => doubleQuoted? rest .outside (f.push e 2)
      | none, some width => doubleQuoted? rest (.code width width 0) f
      | none, none => none
  | c :: rest, .outside, f =>
    if f.column == 0 && isDocumentLimit (c :: rest) then none
    else if c = '"' then some { f with length := f.length + 1 }
    else if c = '\\' then doubleQuoted? rest .letter f
    else if isBlank c || isBreak c then doubleQuoted? rest .outside (f.blank c)
    else doubleQuoted? rest .outside (f.push c 1)

end ImageRollout.Yaml
