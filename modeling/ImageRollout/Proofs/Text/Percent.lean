import ImageRollout.Proofs.Text.Utf8
import ImageRollout.Text.Percent

/-!
# Percent encoding read back

A text in percent encoding stands for bytes: two hexadecimal digits behind a percent sign for the
byte that they name, and every other character for its own bytes in UTF-8.  Every text can be read
back from its encoding, so no two texts have the same one.

* `percentBytes_flatMap`: bytes are read back.
* `percentDecode?_percentEncode`: texts are.
-/

namespace ImageRollout.Text

/-- The value of a hexadecimal digit. -/
def hexDigit? (c : Char) : Option Nat :=
  if c.isDigit then some (c.toNat - '0'.toNat)
  else if 'A' ≤ c ∧ c ≤ 'F' then some (c.toNat - 'A'.toNat + 10)
  else if 'a' ≤ c ∧ c ≤ 'f' then some (c.toNat - 'a'.toNat + 10)
  else none

/-- The bytes for which a text in percent encoding stands.  A percent sign without two hexadecimal
digits behind it stands for itself. -/
def percentBytes : List Char → List UInt8
  | [] => []
  | '%' :: a :: b :: rest =>
    match hexDigit? a, hexDigit? b with
    | some x, some y => UInt8.ofNat (16 * x + y) :: percentBytes rest
    | _, _ => String.utf8EncodeChar '%' ++ percentBytes (a :: b :: rest)
  | c :: rest => String.utf8EncodeChar c ++ percentBytes rest

/-- The text that is read from a text in percent encoding, if the bytes spell one. -/
def percentDecode? (s : String) : Option String := ofUtf8? (percentBytes s.toList)

theorem hexDigit?_upperHex {n : Nat} (h : n < 16) : hexDigit? (upperHex n) = some n := by
  have hall : ∀ n : Fin 16, hexDigit? (upperHex n) = some n.val := by decide
  exact hall ⟨n, h⟩

theorem percentBytes_cons {c : Char} (h : c ≠ '%') (rest : List Char) :
    percentBytes (c :: rest) = String.utf8EncodeChar c ++ percentBytes rest := by
  rw [percentBytes]
  intro _ _ _ hc
  exact absurd hc h

/-- What an unreserved byte is written as. -/
theorem char_of_isUnreserved {b : UInt8} (h : isUnreserved b = true) :
    Char.ofNat b.toNat ≠ '%' ∧ String.utf8EncodeChar (Char.ofNat b.toNat) = [b] := by
  have hall : ∀ n : Fin 256, isUnreserved (UInt8.ofNat n) = true →
      Char.ofNat n ≠ '%' ∧ String.utf8EncodeChar (Char.ofNat n) = [UInt8.ofNat n] := by
    decide +kernel
  have hb := hall ⟨b.toNat, b.toNat_lt⟩
  rw [UInt8.ofNat_toNat] at hb
  exact hb h

/-- **A byte is read back from what it is written as.** -/
theorem percentBytes_percentByte (b : UInt8) (rest : List Char) :
    percentBytes (percentByte b ++ rest) = b :: percentBytes rest := by
  rw [percentByte]
  split
  next h =>
    obtain ⟨hpercent, hbyte⟩ := char_of_isUnreserved h
    rw [List.singleton_append, percentBytes_cons hpercent, hbyte, List.singleton_append]
  next =>
    have hlt : b.toNat < 256 := b.toNat_lt
    have hvalue : 16 * (b.toNat / 16) + b.toNat % 16 = b.toNat := Nat.div_add_mod b.toNat 16
    simp only [List.cons_append, List.nil_append]
    rw [percentBytes, hexDigit?_upperHex (by omega), hexDigit?_upperHex (by omega)]
    simp only [hvalue, UInt8.ofNat_toNat]

theorem percentBytes_flatMap (bytes : List UInt8) :
    percentBytes (bytes.flatMap percentByte) = bytes := by
  induction bytes with
  | nil => rfl
  | cons b rest ih => rw [List.flatMap_cons, percentBytes_percentByte, ih]

/-- **A text is read back from its encoding.** -/
theorem percentDecode?_percentEncode (s : String) : percentDecode? (percentEncode s) = some s := by
  rw [percentDecode?, percentEncode, String.toList_ofList, percentBytes_flatMap, ofUtf8?_toUtf8]

/-- **No two texts have the same encoding.** -/
theorem percentEncode_injective {s t : String} (h : percentEncode s = percentEncode t) : s = t := by
  have hdecoded := percentDecode?_percentEncode s
  rw [h, percentDecode?_percentEncode] at hdecoded
  exact (Option.some.inj hdecoded).symm

end ImageRollout.Text
