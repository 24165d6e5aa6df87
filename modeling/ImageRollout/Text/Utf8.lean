/-!
# Bytes and text

Request bodies and files are lists of bytes.  They are text where they are valid UTF-8.  Where bytes
are to be shown in any case, those that spell no character are replaced: as many at a time as could
have been the beginning of one.
-/

namespace ImageRollout.Text

/-- The text that the bytes spell in UTF-8, if they spell one. -/
def ofUtf8? (bytes : List UInt8) : Option String :=
  String.fromUTF8? ⟨bytes.toArray⟩

/-- The UTF-8 form of a text. -/
def toUtf8 (s : String) : List UInt8 :=
  s.toList.flatMap String.utf8EncodeChar

/-- The bounds of the bytes that come behind the first byte of a character; there are none behind a
byte that is a character by itself, or that begins none.  The second byte is bound more closely
where a shorter form would do, or where there are no characters. -/
def followers (first : UInt8) : List (Nat × Nat) :=
  let first := first.toNat
  let any := (0x80, 0xBF)
  if first < 0xC2 then []
  else if first < 0xE0 then [any]
  else if first < 0xF0 then
    [(if first = 0xE0 then 0xA0 else 0x80, if first = 0xED then 0x9F else 0xBF), any]
  else if first < 0xF5 then
    [(if first = 0xF0 then 0x90 else 0x80, if first = 0xF4 then 0x8F else 0xBF), any, any]
  else []

/-- Cuts bytes into pieces, given the piece in hand and the bounds of those that still belong to
it. -/
def piecesFrom (piece : List UInt8) : List (Nat × Nat) → List UInt8 → List (List UInt8)
  | _, [] => [piece]
  | (least, most) :: bounds, b :: rest =>
    if least ≤ b.toNat ∧ b.toNat ≤ most then piecesFrom (piece ++ [b]) bounds rest
    else piece :: piecesFrom [b] (followers b) rest
  | [], b :: rest => piece :: piecesFrom [b] (followers b) rest

/-- Cuts bytes into pieces, each of which is a character or as many bytes as could have been the
beginning of one. -/
def pieces : List UInt8 → List (List UInt8)
  | [] => []
  | b :: rest => piecesFrom [b] (followers b) rest

/-- The bytes as a text, with a replacement for each piece that spells no character. -/
def ofUtf8Lossy (bytes : List UInt8) : String :=
  String.ofList <| (pieces bytes).flatMap fun piece =>
    match ofUtf8? piece with
    | some s => s.toList
    | none => ['\uFFFD']

end ImageRollout.Text
