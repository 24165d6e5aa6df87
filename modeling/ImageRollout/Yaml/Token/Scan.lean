import ImageRollout.Yaml.Token.Block
import ImageRollout.Yaml.Token.Flow

/-!
# From text to tokens

The scanner keeps the indentations of the open block collections, and the places where a simple
key may have begun: only the colon behind it tells that it was one, and then the token of the key
is put in front of it.  A simple key lies on one line and is at most 1024 characters long.
-/

namespace ImageRollout.Yaml

/-- A place where a simple key may have begun. -/
structure KeyStart where
  /-- Whether a colon has to follow, because the indentation leaves no other reading. -/
  required : Bool
  /-- The number of tokens before it. -/
  position : Nat
  index : Nat
  line : Nat
  column : Nat

/-- The scanner between two tokens. -/
structure Scanner where
  cursor : Cursor
  /-- The tokens so far, last first. -/
  tokens : List Token := []
  /-- The column of the innermost block collection, before all else -1. -/
  indent : Int := -1
  /-- The columns of the block collections around it. -/
  outer : List Int := []
  /-- Whether a simple key may begin here. -/
  keyAllowed : Bool := true
  /-- The simple key that may have begun at this level. -/
  key : Option KeyStart := none
  /-- Those of the flow collections around, innermost first. -/
  outerKeys : List (Option KeyStart) := []

namespace Scanner

/-- Whether the scanner stands inside a flow collection. -/
def inFlow (s : Scanner) : Bool := !s.outerKeys.isEmpty

/-- The scanner with one more token. -/
def emit (t : Token) (s : Scanner) : Scanner := { s with tokens := t :: s.tokens }

/-- The scanner with a token put in after the first `position` ones. -/
def emitAt (position : Nat) (t : Token) (s : Scanner) : Scanner :=
  let behind := s.tokens.length - position
  { s with tokens := s.tokens.take behind ++ t :: s.tokens.drop behind }

/-- The scanner so many characters on. -/
def skip (n : Nat) (s : Scanner) : Scanner := { s with cursor := s.cursor.skip n }

/-- Opens a block collection at the column, unless one of that column is open.  Its token is put in
at a position, or comes last. -/
def openBlock (column : Nat) (position : Option Nat) (t : Token) (s : Scanner) : Scanner :=
  if s.inFlow || (column : Int) ≤ s.indent then s
  else
    let s := { s with outer := s.indent :: s.outer, indent := (column : Int) }
    match position with
    | some n => s.emitAt n t
    | none => s.emit t

/-- Closes the block collections that lie right of the column, given those around. -/
def closeAbove (column : Int) : List Int → Scanner → Scanner
  | [], s => s
  | o :: outer, s =>
    if column < s.indent then
      closeAbove column outer { s.emit .blockEnd with indent := o, outer }
    else s

/-- Closes the block collections that lie right of the column. -/
def closeBlocks (column : Int) (s : Scanner) : Scanner :=
  if s.inFlow then s else closeAbove column s.outer s

/-- Drops the simple key at this level; nothing if one was required. -/
def dropKey? (s : Scanner) : Option Scanner :=
  if s.key.any (·.required) then none else some { s with key := none }

/-- Notes that a simple key may begin here. -/
def noteKey? (s : Scanner) : Option Scanner :=
  if s.keyAllowed then do
    let s ← s.dropKey?
    let c := s.cursor
    let required := !s.inFlow && s.indent == (c.column : Int)
    return { s with
      key := some { required, position := s.tokens.length, index := c.index, line := c.line
                    column := c.column } }
  else some s

/-- Whether a simple key can no longer be one. -/
def isStale (c : Cursor) (k : KeyStart) : Bool := k.line < c.line || k.index + 1024 < c.index

/-- The simple key, unless it can no longer be one; nothing if it was required. -/
def fresh? (c : Cursor) : Option KeyStart → Option (Option KeyStart)
  | some k => if isStale c k then (if k.required then none else some none) else some (some k)
  | none => some none

/-- Drops the simple keys that can no longer be ones. -/
def dropStale? (s : Scanner) : Option Scanner := do
  return { s with
    key := ← fresh? s.cursor s.key, outerKeys := ← s.outerKeys.mapM (fresh? s.cursor) }

/-- Skips white space, comments and, with them, line breaks.  A line break outside of flow
collections lets a simple key begin.  A tab is skipped only where none may begin. -/
def toNext (keyAllowed inFlow comment : Bool) (c : Cursor) : List Char → Cursor × Bool
  | [] => (c, keyAllowed)
  | d :: rest =>
    if isBreak d then toNext (keyAllowed || !inFlow) inFlow false c.next rest
    else if comment then toNext keyAllowed inFlow true c.next rest
    else if d = ' ' || (d = '\t' && (inFlow || !keyAllowed)) then
      toNext keyAllowed inFlow false c.next rest
    else if d = '#' then toNext keyAllowed inFlow true c.next rest
    else (c, keyAllowed)

/-- The scanner at the next token. -/
def advance (s : Scanner) : Scanner :=
  let (cursor, keyAllowed) := toNext s.keyAllowed s.inFlow false s.cursor s.cursor.rest
  { s with cursor, keyAllowed }

/-- A letter of a name: an ASCII letter or digit, a dash or an underscore. -/
def isNameChar (c : Char) : Bool := c.isAlphanum || c = '-' || c = '_'

/-- An anchor or alias. -/
def anchor? (make : String → Token) (s : Scanner) : Option Scanner := do
  let s ← s.noteKey?
  let (name, cursor) := s.cursor.next.takeWhile isNameChar
  if name.isEmpty then none
  if !(endsWord cursor.rest || cursor.rest.head?.any (· ∈ "?:,]\x7d%@`".toList)) then none
  return { s with cursor, keyAllowed := false }.emit (make (String.ofList name))

/-- A character of a tag; commas and brackets only where the tag is in angle brackets. -/
def isTagChar (bracketed : Bool) (c : Char) : Bool :=
  isNameChar c || c ∈ ";/?:@&=+$.%!~*'()".toList || (bracketed && c ∈ ",[]".toList)

/-- The characters of a tag with its percent codes resolved. -/
def tagText? : List Char → Option (List UInt8)
  | [] => some []
  | '%' :: a :: b :: rest => do
    let byte := 16 * (← hexDigit? a) + (← hexDigit? b)
    return byte.toUInt8 :: (← tagText? rest)
  | '%' :: _ => none
  | c :: rest => (tagText? rest).map (String.utf8EncodeChar c ++ ·)

/-- The rest of a tag, and the place behind it. -/
def tagRest? (bracketed : Bool) (c : Cursor) : Option (String × Cursor) := do
  let (chars, c) := c.takeWhile (isTagChar bracketed)
  let text ← String.fromUTF8? ⟨(← tagText? chars).toArray⟩
  return (text, c)

/-- The handle and the rest of a tag, and the place behind it. -/
def tagParts? (c : Cursor) : Option (String × String × Cursor) := do
  if c.rest.take 2 = ['!', '<'] then
    let (text, c) ← tagRest? true (c.skip 2)
    if text.isEmpty || c.rest.head? ≠ some '>' then none
    return ("", text, c.next)
  let (name, behind) := c.next.takeWhile isNameChar
  if behind.rest.head? = some '!' then
    let (text, c) ← tagRest? false behind.next
    if text.isEmpty then none
    return ("!" ++ String.ofList name ++ "!", text, c)
  let (text, c) ← tagRest? false c.next
  return if text.isEmpty then ("", "!", c) else ("!", text, c)

/-- A tag. -/
def tag? (s : Scanner) : Option Scanner := do
  let s ← s.noteKey?
  let (handle, text, cursor) ← tagParts? s.cursor
  if !(endsWord cursor.rest || (s.inFlow && cursor.rest.head? = some ',')) then none
  return { s with cursor, keyAllowed := false }.emit (.tag handle text)

/-- A number of a version. -/
def number? (c : Cursor) : Option (Nat × Cursor) :=
  let (digits, c) := c.takeWhile Char.isDigit
  if digits.isEmpty || 9 < digits.length then none
  else some (digits.foldl (fun n d => 10 * n + (d.toNat - 48)) 0, c)

/-- A line behind a percent sign. -/
def directive? (s : Scanner) : Option Scanner := do
  let s ← (s.closeBlocks (-1)).dropKey?
  let (name, c) := s.cursor.next.takeWhile isNameChar
  if !endsWord c.rest then none
  let (t, c) ← match String.ofList name with
    | "YAML" => do
      let (major, c) ← number? (c.skipWhile isBlank)
      if c.rest.head? ≠ some '.' then none
      let (minor, c) ← number? c.next
      pure (Token.version major minor, c)
    | "TAG" => do
      let c := c.skipWhile isBlank
      if c.rest.head? ≠ some '!' then none
      let (handle, c) := c.next.takeWhile isNameChar
      let ends := c.rest.head? = some '!'
      if !ends && !handle.isEmpty then none
      let c := if ends then c.next else c
      if !c.rest.head?.any isBlank then none
      let (start, c) ← tagRest? true (c.skipWhile isBlank)
      if start.isEmpty || !endsWord c.rest then none
      let handle := "!" ++ String.ofList handle ++ (if ends then "!" else "")
      pure (Token.tagHandle handle start, c)
    | _ => none
  let c := c.skipWhile isBlank
  let c := if c.rest.head? = some '#' then c.skipWhile (fun d => !isBreak d) else c
  if c.rest.head?.any (fun d => !isBreak d) then none
  return { s with cursor := c.next, keyAllowed := false }.emit t

/-- The limit of a document. -/
def limit? (t : Token) (s : Scanner) : Option Scanner := do
  let s ← (s.closeBlocks (-1)).dropKey?
  return ({ s with keyAllowed := false }.skip 3).emit t

/-- The beginning of a flow collection. -/
def openFlow? (t : Token) (s : Scanner) : Option Scanner := do
  let s ← s.noteKey?
  let s := { s with outerKeys := s.key :: s.outerKeys, key := none, keyAllowed := true }
  return (s.skip 1).emit t

/-- The end of a flow collection. -/
def closeFlow? (t : Token) (s : Scanner) : Option Scanner := do
  let s ← s.dropKey?
  let s := match s.outerKeys with
    | k :: outerKeys => { s with key := k, outerKeys }
    | [] => s
  return ({ s with keyAllowed := false }.skip 1).emit t

/-- The comma in a flow collection. -/
def flowEntry? (s : Scanner) : Option Scanner := do
  let s ← s.dropKey?
  return ({ s with keyAllowed := true }.skip 1).emit .flowEntry

/-- The dash of a block sequence's entry. -/
def blockEntry? (s : Scanner) : Option Scanner := do
  if !s.inFlow && !s.keyAllowed then none
  let s ← (s.openBlock s.cursor.column none .blockSequence).dropKey?
  return ({ s with keyAllowed := true }.skip 1).emit .blockEntry

/-- The question mark before a key. -/
def explicitKey? (s : Scanner) : Option Scanner := do
  if !s.inFlow && !s.keyAllowed then none
  let s ← (s.openBlock s.cursor.column none .blockMapping).dropKey?
  return ({ s with keyAllowed := !s.inFlow }.skip 1).emit .key

/-- The colon before a value. -/
def value? (s : Scanner) : Option Scanner := do
  match s.key with
  | some k =>
    let s := (s.emitAt k.position .key).openBlock k.column (some k.position) .blockMapping
    return ({ s with key := none, keyAllowed := false }.skip 1).emit .value
  | none =>
    if !s.inFlow && !s.keyAllowed then none
    let s := s.openBlock s.cursor.column none .blockMapping
    return ({ s with keyAllowed := !s.inFlow }.skip 1).emit .value

/-- A block scalar. -/
def blockScalar? (literal : Bool) (s : Scanner) : Option Scanner := do
  let s ← s.dropKey?
  let (text, cursor) ← Yaml.blockScalar? literal s.indent s.cursor.next
  return { s with cursor, keyAllowed := true }.emit
    (.scalar text (if literal then .literal else .folded))

/-- A quoted scalar. -/
def quoted? (double : Bool) (s : Scanner) : Option Scanner := do
  let s ← s.noteKey?
  let c := s.cursor.next
  let start : Folding := { column := c.column }
  let f ← if double then doubleQuoted? c.rest .outside start else singleQuoted? c.rest start
  return { s with cursor := c.skip f.length, keyAllowed := false }.emit (.scalar f.closed .quoted)

/-- A plain scalar. -/
def plainScalar? (s : Scanner) : Option Scanner := do
  let s ← s.noteKey?
  let f ← plain? s.inFlow (s.indent + 1) s.cursor.rest { column := s.cursor.column }
  return { s with cursor := s.cursor.skip f.length, keyAllowed := f.gap.hasBreak }.emit
    (.scalar f.trimmed .plain)

/-- Whether a plain scalar may begin with the character. -/
def beginsPlain (inFlow : Bool) (c : Char) (rest : List Char) : Bool :=
  !(isBlank c || isBreak c || c ∈ "-?:,[]\x7b\x7d#&*!|>'\"%@`".toList) ||
    (c = '-' && !rest.head?.any isBlank) ||
    (!inFlow && (c = '?' || c = ':') && !endsWord rest)

/-- The next token, which begins with the character. -/
def token? (c : Char) (rest : List Char) (s : Scanner) : Option Scanner :=
  let atMargin := s.cursor.column == 0
  if atMargin && c = '%' then s.directive?
  else if atMargin && isLimit '-' (c :: rest) then s.limit? .documentStart
  else if atMargin && isLimit '.' (c :: rest) then s.limit? .documentEnd
  else if c = '[' then s.openFlow? .flowSequence
  else if c = '\x7b' then s.openFlow? .flowMapping
  else if c = ']' then s.closeFlow? .flowSequenceEnd
  else if c = '\x7d' then s.closeFlow? .flowMappingEnd
  else if c = ',' then s.flowEntry?
  else if c = '-' && endsWord rest then s.blockEntry?
  else if c = '?' && (s.inFlow || endsWord rest) then s.explicitKey?
  else if c = ':' && (s.inFlow || endsWord rest) then s.value?
  else if c = '*' then s.anchor? .alias
  else if c = '&' then s.anchor? .anchor
  else if c = '!' then s.tag?
  else if c = '|' && !s.inFlow then s.blockScalar? true
  else if c = '>' && !s.inFlow then s.blockScalar? false
  else if c = '\'' then s.quoted? false
  else if c = '"' then s.quoted? true
  else if beginsPlain s.inFlow c rest then s.plainScalar?
  else none

/-- The tokens up to the end of the text, in at most so many steps. -/
def run? : Nat → Scanner → Option (List Token)
  | 0, _ => none
  | fuel + 1, s => do
    let s ← s.advance.dropStale?
    let s := s.closeBlocks s.cursor.column
    match s.cursor.rest with
    | [] => return ((← (s.closeBlocks (-1)).dropKey?).tokens).reverse
    | c :: rest => run? fuel (← s.token? c rest)

end Scanner

/-- The text without a byte order mark at its beginning. -/
def withoutMark : List Char → List Char
  | c :: rest => if c.toNat = 0xFEFF then rest else c :: rest
  | [] => []

/-- The tokens of a text; nothing where it is no YAML.  Every token takes at least one character. -/
def Token.scan? (text : String) : Option (List Token) :=
  let chars := normalizeBreaks (withoutMark text.toList)
  if chars.all isAllowed then Scanner.run? (chars.length + 2) { cursor := { rest := chars } }
  else none

end ImageRollout.Yaml
