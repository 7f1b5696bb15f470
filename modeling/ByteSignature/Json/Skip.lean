import ByteSignature.Json.Number
import ByteSignature.Json.Quotation

/-!
# Skipping values

A value nobody asks for is read only as far as its end has to be found.  The brackets
that are open are kept in a list, innermost first, so values may be nested as deep as
they like.
-/

namespace ByteSignature.Json

/-- What encloses a value. -/
inductive Bracket where
  | list
  | object
  deriving DecidableEq, Repr

/-- The byte that closes a bracket. -/
def Bracket.close : Bracket → UInt8
  | list => byteOf ']'
  | object => 0x7d

/-- Read the quotation mark of a key. -/
def openKey (bytes : List UInt8) : Except Fault (List UInt8) :=
  match skipBlanks bytes with
  | [] => .error .ended
  | byte :: rest => if byte = 0x22 then .ok rest else .error .malformed

/-- Read the colon behind a key. -/
def readColon (bytes : List UInt8) : Except Fault (List UInt8) :=
  match skipBlanks bytes with
  | [] => .error .ended
  | byte :: rest => if byte = byteOf ':' then .ok rest else .error .malformed

/-- Skip what stands in front of a value in a bracket: nothing in a list, a key and a
colon in an object. -/
def skipLabel : Bracket → List UInt8 → Except Fault (List UInt8)
  | .list, bytes => .ok bytes
  | .object, bytes => do readColon (← skipString (← openKey bytes))

/-- What is to be skipped next. -/
inductive SkipState where
  /-- A value. -/
  | value
  /-- What follows an opening bracket. -/
  | first
  /-- What follows a value. -/
  | after
  deriving DecidableEq, Repr

/-- Skip a value without brackets, whose first byte is given. -/
def skipScalar (byte : UInt8) (rest : List UInt8) : Except Fault (List UInt8) :=
  if byte = byteOf 'n' then readWord "ull".toList rest
  else if byte = byteOf 't' then readWord "rue".toList rest
  else if byte = byteOf 'f' then readWord "alse".toList rest
  else if byte = 0x22 then skipString rest
  else if startsNumeral byte then skipNumeral (byte :: rest)
  else .error .malformed

/-- Skip a value and the rest of the brackets that are open, in a number of steps. -/
def skipFrom : (steps : Nat) → SkipState → List Bracket → List UInt8 →
    Except Fault (List UInt8)
  | 0, _, _, _ => .error .ended
  | steps + 1, state, brackets, bytes =>
      match state, brackets, skipBlanks bytes with
      | .after, [], _ => .ok bytes
      | _, _, [] => .error .ended
      | .value, _, byte :: rest =>
          if byte = byteOf '[' then
            skipFrom steps .first (.list :: brackets) rest
          else if byte = 0x7b then
            skipFrom steps .first (.object :: brackets) rest
          else do
            skipFrom steps .after brackets (← skipScalar byte rest)
      | .first, [], byte :: rest => skipFrom steps .value [] (byte :: rest)
      | .first, bracket :: outer, byte :: rest =>
          if byte = bracket.close then
            skipFrom steps .after outer rest
          else do
            skipFrom steps .value brackets (← skipLabel bracket (byte :: rest))
      | .after, bracket :: outer, byte :: rest =>
          if byte = bracket.close then
            skipFrom steps .after outer rest
          else if byte = byteOf ',' then do
            skipFrom steps .value brackets (← skipLabel bracket rest)
          else
            .error .malformed

/-- Skip a value that has at most `bound` bytes.  Every second step reads a byte, so
twice as many steps and two more are enough. -/
def skipValue (bound : Nat) (bytes : List UInt8) : Except Fault (List UInt8) :=
  skipFrom (2 * bound + 2) .value [] bytes

end ByteSignature.Json
