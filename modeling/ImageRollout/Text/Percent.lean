import ImageRollout.Text.Utf8

/-!
# Percent encoding

Every byte but the unreserved ones (ASCII letters, digits, dash, underscore, full stop and tilde)
is written as a percent sign and two capital hexadecimal digits.
-/

namespace ImageRollout.Text

/-- Whether the byte stands for itself. -/
def isUnreserved (b : UInt8) : Bool :=
  let c := Char.ofNat b.toNat
  b < 0x80 && (c.isAlphanum || c = '-' || c = '_' || c = '.' || c = '~')

/-- A capital hexadecimal digit. -/
def upperHex (n : Nat) : Char :=
  if n < 10 then Char.ofNat ('0'.toNat + n) else Char.ofNat ('A'.toNat + (n - 10))

/-- A byte in percent encoding. -/
def percentByte (b : UInt8) : List Char :=
  if isUnreserved b then [Char.ofNat b.toNat]
  else ['%', upperHex (b.toNat / 16), upperHex (b.toNat % 16)]

/-- A text in percent encoding. -/
def percentEncode (s : String) : String := String.ofList ((toUtf8 s).flatMap percentByte)

end ImageRollout.Text
