import ImageRollout.Text.Unprintable

/-!
# Quoted text in messages

Messages quote a text so that every character of it can be told apart: quotes and backslashes
carry a backslash, the common control characters have a letter, and unprintable characters are given
by their code as `\u` with hexadecimal digits in braces.
-/

namespace ImageRollout.Text

/-- The hexadecimal digits of a code point, without leading zeros. -/
def codeDigits (c : Char) : List Char := Nat.toDigits 16 c.toNat

/-- A character inside a quoted text. -/
def quotedChar (c : Char) : List Char :=
  if c = '"' then ['\\', '"']
  else if c = '\\' then ['\\', '\\']
  else if c = '\n' then ['\\', 'n']
  else if c = '\t' then ['\\', 't']
  else if c = '\r' then ['\\', 'r']
  else if c = '\x00' then ['\\', '0']
  else if isUnprintable c then ['\\', 'u', '\x7b'] ++ codeDigits c ++ ['\x7d']
  else [c]

/-- A text in quotes. -/
def quoted (s : String) : String :=
  "\"" ++ String.ofList (s.toList.flatMap quotedChar) ++ "\""

/-- A text that may be missing, as messages show it. -/
def quotedOption : Option String → String
  | some s => "Some(" ++ quoted s ++ ")"
  | none => "None"

/-- A list of texts, as messages show it. -/
def quotedList (items : List String) : String :=
  "[" ++ String.intercalate ", " (items.map quoted) ++ "]"

end ImageRollout.Text
