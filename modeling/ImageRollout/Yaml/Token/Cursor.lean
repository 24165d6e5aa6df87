/-!
# A place in a YAML text

The characters that are still to be read, and the line and column of the first of them.
-/

namespace ImageRollout.Yaml

/-- The characters of a text that YAML allows. -/
def isAllowed (c : Char) : Bool :=
  let n := c.toNat
  n = 0x09 || n = 0x0A || n = 0x0D || (0x20 ≤ n && n ≤ 0x7E) || n = 0x85 ||
    (0xA0 ≤ n && n ≤ 0xFFFD) || 0x10000 ≤ n

/-- The text with every line break that is no separator of its own written as a line feed. -/
def normalizeBreaks : List Char → List Char
  | '\r' :: '\n' :: rest => '\n' :: normalizeBreaks rest
  | c :: rest => (if c = '\r' || c.toNat = 0x85 then '\n' else c) :: normalizeBreaks rest
  | [] => []

/-- A line break, or a line or paragraph separator. -/
def isBreak (c : Char) : Bool := c = '\n' || c.toNat = 0x2028 || c.toNat = 0x2029

/-- A space or a tab. -/
def isBlank (c : Char) : Bool := c = ' ' || c = '\t'

/-- Whether a text ends, or goes on with white space. -/
def endsWord (s : List Char) : Bool := s.head?.all fun c => isBlank c || isBreak c

/-- Whether three characters of the kind stand alone at the beginning: a document's limit. -/
def isLimit (c : Char) (s : List Char) : Bool :=
  s.take 3 = [c, c, c] && endsWord (s.drop 3)

/-- Whether a document begins or ends here, if this is the beginning of a line. -/
def isDocumentLimit (s : List Char) : Bool := isLimit '-' s || isLimit '.' s

/-- A place in a text. -/
structure Cursor where
  rest : List Char
  index : Nat := 0
  line : Nat := 0
  column : Nat := 0
  deriving Repr, Inhabited

namespace Cursor

/-- The place behind the next character. -/
def next (c : Cursor) : Cursor :=
  match c.rest with
  | [] => c
  | d :: rest =>
    if isBreak d then { rest, index := c.index + 1, line := c.line + 1, column := 0 }
    else { c with rest, index := c.index + 1, column := c.column + 1 }

/-- The place so many characters on. -/
def skip : Nat → Cursor → Cursor
  | 0, c => c
  | n + 1, c => skip n c.next

/-- The place behind all characters that pass the test, and those characters. -/
def takeWhile (p : Char → Bool) (c : Cursor) : List Char × Cursor :=
  let taken := c.rest.takeWhile p
  (taken, c.skip taken.length)

/-- The place behind all characters that pass the test. -/
def skipWhile (p : Char → Bool) (c : Cursor) : Cursor := (c.takeWhile p).2

end Cursor

end ImageRollout.Yaml
