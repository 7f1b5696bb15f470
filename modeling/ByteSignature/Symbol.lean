/-!
# Symbols

A symbol is one byte of a payload.  This file fixes the byte that ends a
whole-input signature and the written form of a byte: a visible ASCII character
other than the backslash stands for itself, and every other byte is written as
`\x` followed by two lowercase hexadecimal digits.
-/

namespace ByteSignature

/-- The byte that follows every input of a whole-input signature.  It is `#`,
which no pattern can contain. -/
def endMarker : UInt8 :=
  35

namespace Symbol

/-- Bytes that are written as themselves: visible ASCII except the backslash. -/
def isPlain (symbol : UInt8) : Bool :=
  0x21 ≤ symbol && symbol ≤ 0x7e && symbol != 0x5c

/-- The lowercase hexadecimal digit of a number below sixteen. -/
def hexDigit (value : Nat) : Char :=
  if value < 10 then Char.ofNat (48 + value) else Char.ofNat (87 + value)

/-- The characters that name a byte in every text format. -/
def spell (symbol : UInt8) : List Char :=
  if isPlain symbol then
    [Char.ofNat symbol.toNat]
  else
    ['\\', 'x', hexDigit (symbol.toNat / 16), hexDigit (symbol.toNat % 16)]

/-- The written form of a byte. -/
def format (symbol : UInt8) : String :=
  String.ofList (spell symbol)

@[simp]
theorem toList_format (symbol : UInt8) : (format symbol).toList = spell symbol := by
  simp [format]

end Symbol

end ByteSignature
