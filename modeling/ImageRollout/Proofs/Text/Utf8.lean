import Mathlib.Data.List.Forall2
import ImageRollout.Text.Utf8

/-!
# Text from bytes

Every text can be read back from its bytes, and it is shown as it is where bytes are shown that need
not be text.  For this, every character has to be a piece by itself: the bytes behind its first one
are within the bounds that the first one sets.

* `ofUtf8?_toUtf8`: a text is read from its bytes.
* `within_followers`: the bytes of a character are within bounds.
* `pieces_toUtf8`, `ofUtf8Lossy_toUtf8`: the bytes of a text are cut into those of its characters,
  and shown as the text.
-/

namespace ImageRollout.Text

/-- A text can be read back from its bytes. -/
theorem ofUtf8?_toUtf8 (s : String) : ofUtf8? (toUtf8 s) = some s := by
  have hbytes : (⟨(toUtf8 s).toArray⟩ : ByteArray) = s.toByteArray := by
    rw [← String.utf8Encode_toList, List.utf8Encode]
    exact ByteArray.ext (List.data_toByteArray).symm
  rw [ofUtf8?, hbytes, String.fromUTF8?, dif_pos s.isValidUTF8]
  rfl

/-- Each byte is within its bounds. -/
def Within (bounds : List (Nat × Nat)) (bytes : List UInt8) : Prop :=
  List.Forall₂ (fun bound b => bound.1 ≤ b.toNat ∧ b.toNat ≤ bound.2) bounds bytes

/-- A piece is cut off behind the last byte that is within bounds. -/
theorem piecesFrom_within {bounds : List (Nat × Nat)} {bytes : List UInt8}
    (h : Within bounds bytes) (piece rest : List UInt8) :
    piecesFrom piece bounds (bytes ++ rest) = (piece ++ bytes) :: pieces rest := by
  induction h generalizing piece with
  | nil =>
      rw [List.append_nil, List.nil_append]
      cases rest <;> rfl
  | @cons bound b bounds bytes hb _ ih =>
      obtain ⟨least, most⟩ := bound
      rw [List.cons_append, piecesFrom, if_pos hb, ih, List.append_assoc]
      rfl

theorem toNat_ofNat {n : Nat} (h : n < 256) : (UInt8.ofNat n).toNat = n := by
  rw [UInt8.toNat_ofNat']
  exact Nat.mod_eq_of_lt h

/-- The last six bits of a number make a byte that follows another one. -/
theorem within_any (n : Nat) :
    0x80 ≤ (UInt8.ofNat (n % 64 + 128)).toNat ∧
      (UInt8.ofNat (n % 64 + 128)).toNat ≤ 0xBF := by
  rw [toNat_ofNat (by omega)]
  omega

/-- **The bytes of a character** are within the bounds that the first one sets. -/
theorem within_followers (c : Char) :
    ∃ first rest, String.utf8EncodeChar c = first :: rest ∧ Within (followers first) rest := by
  have hvalid : c.val.toNat < 0xD800 ∨ 0xDFFF < c.val.toNat ∧ c.val.toNat < 0x110000 := c.valid
  rw [String.utf8EncodeChar]
  generalize c.val.toNat = v at hvalid
  split
  next h =>
    have hfirst : (UInt8.ofNat v).toNat = v := toNat_ofNat (by omega)
    refine ⟨_, _, rfl, ?_⟩
    rw [followers, hfirst, if_pos (by omega)]
    exact .nil
  split
  next h₁ h₂ =>
    have hfirst := toNat_ofNat (n := v / 64 % 32 + 192) (by omega)
    refine ⟨_, _, rfl, ?_⟩
    rw [followers, hfirst, if_neg (by omega), if_pos (by omega)]
    exact .cons (within_any v) .nil
  split
  next h₁ h₂ h₃ =>
    have hfirst := toNat_ofNat (n := v / 4096 % 16 + 224) (by omega)
    have hsecond := toNat_ofNat (n := v / 64 % 64 + 128) (by omega)
    refine ⟨_, _, rfl, ?_⟩
    rw [followers, hfirst, if_neg (by omega), if_neg (by omega), if_pos (by omega)]
    refine .cons ?_ (.cons (within_any v) .nil)
    -- The second byte tells longer forms of characters, and what is no character, apart.
    rw [hsecond]
    dsimp only
    constructor <;> split <;> omega
  next h₁ h₂ h₃ =>
    have hfirst := toNat_ofNat (n := v / 262144 % 8 + 240) (by omega)
    have hsecond := toNat_ofNat (n := v / 4096 % 64 + 128) (by omega)
    refine ⟨_, _, rfl, ?_⟩
    rw [followers, hfirst, if_neg (by omega), if_neg (by omega), if_neg (by omega),
      if_pos (by omega)]
    refine .cons ?_ (.cons (within_any (v / 64)) (.cons (within_any v) .nil))
    rw [hsecond]
    dsimp only
    constructor <;> split <;> omega

/-- The bytes of a character are one piece. -/
theorem pieces_character (c : Char) (rest : List UInt8) :
    pieces (String.utf8EncodeChar c ++ rest) = String.utf8EncodeChar c :: pieces rest := by
  obtain ⟨first, others, hbytes, hwithin⟩ := within_followers c
  rw [hbytes, List.cons_append, pieces, piecesFrom_within hwithin, List.singleton_append]

/-- **The bytes of a text** are cut into those of its characters. -/
theorem pieces_toUtf8 (s : String) : pieces (toUtf8 s) = s.toList.map String.utf8EncodeChar := by
  rw [toUtf8]
  induction s.toList with
  | nil => rfl
  | cons c rest ih => rw [List.flatMap_cons, pieces_character, ih, List.map_cons]

/-- **The bytes of a text are shown as the text.** -/
theorem ofUtf8Lossy_toUtf8 (s : String) : ofUtf8Lossy (toUtf8 s) = s := by
  have hcharacter (c : Char) : ofUtf8? (String.utf8EncodeChar c) = some (String.ofList [c]) := by
    have hread := ofUtf8?_toUtf8 (String.ofList [c])
    rwa [toUtf8, String.toList_ofList, List.flatMap_singleton] at hread
  rw [ofUtf8Lossy, pieces_toUtf8, List.flatMap_map]
  simp only [hcharacter, String.toList_ofList, List.flatMap_singleton', String.ofList_toList]

/-- Of the bytes of a character that is broken off one replacement is left. -/
example : ofUtf8Lossy [0x61, 0xE2, 0x82, 0x62] = "a\uFFFDb" := by decide +kernel

end ImageRollout.Text
