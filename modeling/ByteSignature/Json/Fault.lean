/-!
# Faults of a JSON text

Readers take the bytes that are left and return what they have read with the bytes
behind it.  A text is at fault in one of two ways: it ends before it is complete, or
something stands where it may not.
-/

namespace ByteSignature.Json

/-- Why some bytes are no JSON text. -/
inductive Fault where
  /-- The text ends too early. -/
  | ended
  /-- Something stands where it may not. -/
  | malformed
  deriving DecidableEq, Repr

/-- The byte of an ASCII character. -/
abbrev byteOf (character : Char) : UInt8 :=
  character.toUInt8

/-- The byte may stand between the parts of a text. -/
def isBlank (byte : UInt8) : Bool :=
  byte == 0x20 || byte == 0x0a || byte == 0x0d || byte == 0x09

/-- The bytes from the first that is not blank. -/
def skipBlanks (bytes : List UInt8) : List UInt8 :=
  bytes.dropWhile isBlank

/-- Read the rest of a word whose first letter has been read. -/
def readWord : List Char → List UInt8 → Except Fault (List UInt8)
  | [], bytes => .ok bytes
  | _ :: _, [] => .error .ended
  | letter :: letters, byte :: rest =>
      if byte = byteOf letter then readWord letters rest else .error .malformed

@[simp]
theorem skipBlanks_cons_of_isBlank {byte : UInt8} {rest : List UInt8} (h : isBlank byte) :
    skipBlanks (byte :: rest) = skipBlanks rest := by
  simp [skipBlanks, h]

@[simp]
theorem skipBlanks_cons_of_not_isBlank {byte : UInt8} {rest : List UInt8}
    (h : isBlank byte = false) : skipBlanks (byte :: rest) = byte :: rest := by
  simp [skipBlanks, h]

end ByteSignature.Json
