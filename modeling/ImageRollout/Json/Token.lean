import ImageRollout.Json.Basic
import ImageRollout.Text.Utf8

/-!
# JSON tokens

The lexical level of JSON, as a machine that takes one byte at a time.  Between tokens stands
white space; words and numbers end where a byte stands that cannot belong to them; a string ends
at the first quote that no backslash precedes.

Strings are collected as raw bytes and escaped UTF-16 units, and become text only at their end:
surrogates must come in pairs and the bytes must be UTF-8.
-/

namespace ImageRollout.Json

/-- A token of a JSON text. -/
inductive Token where
  | openArray | closeArray | openObject | closeObject | comma | colon
  /-- `null`, `true`, `false` or a number. -/
  | scalar (v : Json)
  /-- A string; nothing where it spells no text. -/
  | string (s : Option String)
  deriving Inhabited

/-- A piece of a string: a byte of its own, or an escaped UTF-16 unit. -/
inductive Piece where
  | byte (b : UInt8)
  | unit (n : Nat)

/-- Whether the unit opens a surrogate pair. -/
def isLeading (n : Nat) : Bool := 0xD800 ≤ n && n < 0xDC00

/-- Whether the unit closes a surrogate pair. -/
def isTrailing (n : Nat) : Bool := 0xDC00 ≤ n && n < 0xE000

/-- The bytes of a string's pieces; nothing where a surrogate stands alone. -/
def Piece.bytes? : List Piece → Option (List UInt8)
  | [] => some []
  | .byte b :: rest => (bytes? rest).map (b :: ·)
  | .unit n :: rest =>
    if isLeading n then
      match rest with
      | .unit m :: rest =>
        if isTrailing m then
          let c := Char.ofNat (0x10000 + (n - 0xD800) * 0x400 + (m - 0xDC00))
          (bytes? rest).map (String.utf8EncodeChar c ++ ·)
        else none
      | _ => none
    else if isTrailing n then none
    else (bytes? rest).map (String.utf8EncodeChar (Char.ofNat n) ++ ·)

/-- Whether the pieces hold an escape. -/
def Piece.isUnit : Piece → Bool
  | .unit _ => true
  | .byte _ => false

/-- The text that a string's pieces spell, if they spell one. -/
def Piece.text? (pieces : List Piece) : Option String :=
  if pieces.any isUnit then (bytes? pieces).bind Text.ofUtf8?
  else
    let bytes := pieces.foldl (fun a p => match p with | .byte b => a.push b | .unit _ => a)
      (ByteArray.emptyWithCapacity 16)
    String.fromUTF8? bytes

/-- The number of a list of decimal digits. -/
def natOfDigits (digits : List Char) : Nat :=
  digits.foldl (fun n c => 10 * n + (c.toNat - '0'.toNat)) 0

/-- A fraction: nothing, or a point and at least one digit.  Gives what follows it. -/
def skipFraction? : List Char → Option (List Char)
  | '.' :: rest =>
    match rest.span Char.isDigit with
    | ([], _) => none
    | (_, rest) => some rest
  | rest => some rest

/-- An exponent: nothing, or a mark, a sign at will and at least one digit, to the end. -/
def isExponent : List Char → Bool
  | [] => true
  | e :: rest =>
    (e = 'e' || e = 'E') &&
      (let digits := match rest with
        | '+' :: ds => ds
        | '-' :: ds => ds
        | ds => ds
      !digits.isEmpty && digits.all Char.isDigit)

/-- The number that a spelling stands for: digits without a leading zero, then at will a fraction
and an exponent. -/
def ofNumber? (spelling : List Char) : Option Json := do
  let (negative, body) := match spelling with
    | '-' :: body => (true, body)
    | body => (false, body)
  let (digits, rest) := body.span Char.isDigit
  if digits.isEmpty || (digits.head? == some '0' && digits.length != 1) then none
  if rest.isEmpty && digits.length ≤ 20 && !(negative && digits == ['0']) then
    let n : Int := natOfDigits digits
    return .int (if negative then -n else n)
  if isExponent (← skipFraction? rest) then return .number (String.ofList spelling)
  none

/-- Where the machine stands. -/
inductive Lexer.Mode where
  | between
  /-- Inside a word, of which these bytes are left. -/
  | word (left : List UInt8) (v : Json)
  /-- Inside a number; the characters so far, last first. -/
  | number (seen : List Char)
  /-- Inside a string; the pieces so far, last first. -/
  | string (seen : List Piece)
  /-- Behind a backslash. -/
  | escape (seen : List Piece)
  /-- Inside a `\u` escape with so many hexadecimal digits to come. -/
  | hex (seen : List Piece) (left : Nat) (value : Nat)

/-- The machine: its mode and the tokens so far, last first. -/
structure Lexer where
  mode : Lexer.Mode
  tokens : List Token

namespace Lexer

/-- The byte of an ASCII character. -/
def byteOf (c : Char) : UInt8 := c.toNat.toUInt8

/-- Whether the byte may stand in a number. -/
def isNumberByte (b : UInt8) : Bool :=
  (0x30 ≤ b && b ≤ 0x39) || b = byteOf '-' || b = byteOf '+' || b = byteOf '.' ||
    b = byteOf 'e' || b = byteOf 'E'

/-- The value of a hexadecimal digit. -/
def hexDigit? (b : UInt8) : Option Nat :=
  let n := b.toNat
  if 0x30 ≤ n ∧ n ≤ 0x39 then some (n - 0x30)
  else if 0x41 ≤ n ∧ n ≤ 0x46 then some (n - 0x37)
  else if 0x61 ≤ n ∧ n ≤ 0x66 then some (n - 0x57)
  else none

/-- The character that a one-letter escape stands for. -/
def escaped? (b : UInt8) : Option UInt8 :=
  if b = byteOf '"' || b = byteOf '\\' || b = byteOf '/' then some b
  else if b = byteOf 'b' then some 0x08
  else if b = byteOf 'f' then some 0x0C
  else if b = byteOf 'n' then some 0x0A
  else if b = byteOf 'r' then some 0x0D
  else if b = byteOf 't' then some 0x09
  else none

/-- The word without its first letter, and its value, by the first letter. -/
def word? (b : UInt8) : Option (List UInt8 × Json) :=
  if b = byteOf 't' then some ("rue".toList.map byteOf, .bool true)
  else if b = byteOf 'f' then some ("alse".toList.map byteOf, .bool false)
  else if b = byteOf 'n' then some ("ull".toList.map byteOf, .null)
  else none

/-- The token that is one byte long. -/
def punctuation? (b : UInt8) : Option Token :=
  if b = byteOf '[' then some .openArray
  else if b = byteOf ']' then some .closeArray
  else if b = byteOf '\x7b' then some .openObject
  else if b = byteOf '\x7d' then some .closeObject
  else if b = byteOf ',' then some .comma
  else if b = byteOf ':' then some .colon
  else none

/-- White space of a JSON text. -/
def isSpace (b : UInt8) : Bool := b = 0x20 || b = 0x0A || b = 0x0D || b = 0x09

/-- A byte that stands between tokens or opens one. -/
def open? (tokens : List Token) (b : UInt8) : Option Lexer :=
  if isSpace b then some ⟨.between, tokens⟩
  else if b = byteOf '"' then some ⟨.string [], tokens⟩
  else if b = byteOf '-' || (0x30 ≤ b && b ≤ 0x39) then
    some ⟨.number [Char.ofNat b.toNat], tokens⟩
  else match punctuation? b with
    | some t => some ⟨.between, t :: tokens⟩
    | none => (word? b).map fun (left, v) => ⟨.word left v, tokens⟩

/-- One byte. -/
def step (l : Lexer) (b : UInt8) : Option Lexer :=
  match l.mode with
  | .between => open? l.tokens b
  | .word [] v => open? (.scalar v :: l.tokens) b
  | .word (c :: left) v => if b = c then some ⟨.word left v, l.tokens⟩ else none
  | .number seen =>
    if isNumberByte b then some ⟨.number (Char.ofNat b.toNat :: seen), l.tokens⟩
    else do open? (.scalar (← ofNumber? seen.reverse) :: l.tokens) b
  | .string seen =>
    if b = byteOf '"' then some ⟨.between, .string (Piece.text? seen.reverse) :: l.tokens⟩
    else if b = byteOf '\\' then some ⟨.escape seen, l.tokens⟩
    else if b < 0x20 then none
    else some ⟨.string (.byte b :: seen), l.tokens⟩
  | .escape seen =>
    if b = byteOf 'u' then some ⟨.hex seen 4 0, l.tokens⟩
    else (escaped? b).map fun c => ⟨.string (.byte c :: seen), l.tokens⟩
  | .hex seen left value => do
    let value := 16 * value + (← hexDigit? b)
    if left ≤ 1 then return ⟨.string (.unit value :: seen), l.tokens⟩
    else return ⟨.hex seen (left - 1) value, l.tokens⟩

/-- The tokens at the end of the text. -/
def finish? (l : Lexer) : Option (List Token) :=
  match l.mode with
  | .between => some l.tokens.reverse
  | .word [] v => some (.scalar v :: l.tokens).reverse
  | .number seen => (ofNumber? seen.reverse).map fun v => (.scalar v :: l.tokens).reverse
  | _ => none

end Lexer

/-- The tokens of a text, if it consists of tokens. -/
def Token.scan? (bytes : List UInt8) : Option (List Token) :=
  (bytes.foldlM Lexer.step ⟨.between, []⟩).bind Lexer.finish?

end ImageRollout.Json
