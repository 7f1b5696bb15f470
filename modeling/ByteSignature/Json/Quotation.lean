import ByteSignature.Json.Fault
import ByteSignature.Text.Utf8

/-!
# Strings

A string is read one byte after the other by a machine that knows what the next byte
belongs to.  Text that is kept must be UTF-8, and the escapes of surrogates must come
in pairs; in text that is only skipped neither is asked for.
-/

namespace ByteSignature.Json

/-- What the next byte of a string belongs to. -/
inductive StringState where
  /-- The text itself. -/
  | text
  /-- An escape, behind its backslash. -/
  | mark
  /-- The four digits of an escape, some of which have been read.  `high?` is the
  surrogate that this escape completes. -/
  | digits (high? : Option Nat) (found : List UInt8)
  /-- The backslash of the escape that must complete a surrogate. -/
  | pairBackslash (high : Nat)
  /-- The mark of the escape that must complete a surrogate. -/
  | pairMark (high : Nat)
  deriving DecidableEq, Repr

/-- What a byte does to a string. -/
inductive StringStep where
  /-- The byte has no place there. -/
  | malformed
  /-- The string ends. -/
  | close
  /-- The string goes on, and the byte has completed some text. -/
  | next (state : StringState) (found : List UInt8)
  deriving DecidableEq, Repr

/-- The character that a one-letter escape stands for. -/
def escaped? (mark : UInt8) : Option UInt8 :=
  match Char.ofUInt8 mark with
  | '"' => some 0x22
  | '\\' => some 0x5c
  | '/' => some 0x2f
  | 'b' => some 0x08
  | 'f' => some 0x0c
  | 'n' => some 0x0a
  | 'r' => some 0x0d
  | 't' => some 0x09
  | _ => none

/-- The value of a hexadecimal digit of either case. -/
def hexValue? (byte : UInt8) : Option Nat :=
  if 0x30 ≤ byte ∧ byte ≤ 0x39 then some (byte.toNat - 0x30)
  else if 0x61 ≤ byte ∧ byte ≤ 0x66 then some (byte.toNat - 0x57)
  else if 0x41 ≤ byte ∧ byte ≤ 0x46 then some (byte.toNat - 0x37)
  else none

/-- The number that hexadecimal digits spell. -/
def hexNumber? (digits : List UInt8) : Option Nat :=
  digits.foldlM (fun value digit => (hexValue? digit).map (16 * value + ·)) 0

/-- Complete an escape of four digits. -/
def completeEscape (isKept : Bool) (high? : Option Nat) (digits : List UInt8) : StringStep :=
  match hexNumber? digits with
  | none => .malformed
  | some unit =>
      let isHigh := decide (0xd800 ≤ unit ∧ unit < 0xdc00)
      let isLow := decide (0xdc00 ≤ unit ∧ unit < 0xe000)
      if !isKept then
        .next .text []
      else
        match high? with
        | some high =>
            if isLow then
              let code := 0x10000 + 0x400 * (high - 0xd800) + (unit - 0xdc00)
              .next .text (String.utf8EncodeChar (Char.ofNat code))
            else
              .malformed
        | none =>
            if isLow then .malformed
            else if isHigh then .next (.pairBackslash unit) []
            else .next .text (String.utf8EncodeChar (Char.ofNat unit))

/-- Read a byte of a string. -/
def stringStep (isKept : Bool) (state : StringState) (byte : UInt8) : StringStep :=
  match state with
  | .text =>
      if byte = 0x22 then .close
      else if byte = 0x5c then .next .mark []
      else if byte < 0x20 then .malformed
      else .next .text [byte]
  | .mark =>
      if byte = byteOf 'u' then
        .next (.digits none []) []
      else
        match escaped? byte with
        | some character => .next .text [character]
        | none => .malformed
  | .digits high? found =>
      let found := found ++ [byte]
      if found.length = 4 then
        completeEscape isKept high? found
      else
        .next (.digits high? found) []
  | .pairBackslash high =>
      if byte = 0x5c then .next (.pairMark high) [] else .malformed
  | .pairMark high =>
      if byte = byteOf 'u' then .next (.digits (some high) []) [] else .malformed

/-- Read a string up to its closing quotation mark.  `found` is the text so far, last
byte first. -/
def readStringFrom (isKept : Bool) : (state : StringState) → (found : List UInt8) →
    List UInt8 → Except Fault (List UInt8 × List UInt8)
  | _, _, [] => .error .ended
  | state, found, byte :: rest =>
      match stringStep isKept state byte with
      | .malformed => .error .malformed
      | .close => .ok (found.reverse, rest)
      | .next state more => readStringFrom isKept state (more.reverse ++ found) rest

/-- Read a string whose opening quotation mark has been read. -/
def readString (bytes : List UInt8) : Except Fault (List Char × List UInt8) := do
  let (found, rest) ← readStringFrom true .text [] bytes
  match Text.utf8Text? found with
  | some text => return (text, rest)
  | none => .error .malformed

/-- Skip a string whose opening quotation mark has been read. -/
def skipString (bytes : List UInt8) : Except Fault (List UInt8) := do
  let (_, rest) ← readStringFrom false .text [] bytes
  return rest

end ByteSignature.Json
