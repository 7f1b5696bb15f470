import ByteSignature.Json.Fault
import ByteSignature.Text.Decimal
import ByteSignature.Text.Shortest

/-!
# Numbers

A numeral without fraction and exponent is an integer as long as it fits 64 bits, with
a sign when it is negative.  All other numerals, and minus zero, are doubles.  Digits
are taken into a significand while it fits 64 bits and the others only count; the
double nearest to the significand is then scaled by a power of ten.
-/

namespace ByteSignature.Json

/-- A number as a reader sees it. -/
inductive Number where
  | integer (value : Int)
  | double (value : Float)

/-- The parts of a numeral. -/
structure Numeral where
  isNegative : Bool
  whole : List UInt8
  /-- The digits behind the point. -/
  fraction? : Option (List UInt8)
  /-- The exponent, below zero after a minus sign. -/
  exponent? : Option Int
  deriving DecidableEq, Repr

/-- The byte is a digit. -/
def isDigit (byte : UInt8) : Bool :=
  0x30 ≤ byte && byte ≤ 0x39

/-- The value of a digit. -/
def digitValue (byte : UInt8) : Nat :=
  byte.toNat - 0x30

/-- The digits at the beginning of some bytes, of which there must be one. -/
def readDigits (bytes : List UInt8) : Except Fault (List UInt8 × List UInt8) :=
  match bytes.takeWhile isDigit, bytes with
  | [], [] => .error .ended
  | [], _ :: _ => .error .malformed
  | digits, _ => .ok (digits, bytes.dropWhile isDigit)

/-- The digits in front of the point.  No zero stands in front of another digit. -/
def readWhole (bytes : List UInt8) : Except Fault (List UInt8 × List UInt8) := do
  let (digits, rest) ← readDigits bytes
  if digits.head? = some 0x30 ∧ 1 < digits.length then
    .error .malformed
  else
    .ok (digits, rest)

/-- The fraction of a numeral, if it has one. -/
def readFraction (bytes : List UInt8) : Except Fault (Option (List UInt8) × List UInt8) :=
  match bytes with
  | 0x2e :: rest => do
      let (digits, rest) ← readDigits rest
      return (some digits, rest)
  | bytes => .ok (none, bytes)

/-- The value of an exponent, whose digits come after an optional sign. -/
def readSignedExponent (bytes : List UInt8) : Except Fault (Int × List UInt8) :=
  let value (digits : List UInt8) : Nat :=
    digits.foldl (fun value digit => 10 * value + digitValue digit) 0
  match bytes with
  | 0x2d :: rest => do
      let (digits, rest) ← readDigits rest
      return (-(value digits : Int), rest)
  | 0x2b :: rest => do
      let (digits, rest) ← readDigits rest
      return ((value digits : Int), rest)
  | bytes => do
      let (digits, rest) ← readDigits bytes
      return ((value digits : Int), rest)

/-- The exponent of a numeral, if it has one. -/
def readExponent (bytes : List UInt8) : Except Fault (Option Int × List UInt8) :=
  match bytes with
  | byte :: rest =>
      if byte = byteOf 'e' ∨ byte = byteOf 'E' then do
        let (exponent, rest) ← readSignedExponent rest
        return (some exponent, rest)
      else
        .ok (none, bytes)
  | [] => .ok (none, [])

/-- Read a numeral without its sign. -/
def readMagnitude (isNegative : Bool) (bytes : List UInt8) :
    Except Fault (Numeral × List UInt8) := do
  let (whole, rest) ← readWhole bytes
  let (fraction?, rest) ← readFraction rest
  let (exponent?, rest) ← readExponent rest
  return (⟨isNegative, whole, fraction?, exponent?⟩, rest)

/-- Read a numeral. -/
def readNumeral (bytes : List UInt8) : Except Fault (Numeral × List UInt8) :=
  match bytes with
  | 0x2d :: rest => readMagnitude true rest
  | bytes => readMagnitude false bytes

/-- A numeral begins with this byte. -/
def startsNumeral (byte : UInt8) : Bool :=
  byte == 0x2d || isDigit byte

namespace Numeral

/-- Take digits into a significand while it fits 64 bits.  The digits from the first
that does not fit are returned. -/
def absorb : (significand : Nat) → List UInt8 → Nat × List UInt8
  | significand, [] => (significand, [])
  | significand, digit :: digits =>
      let next := 10 * significand + digitValue digit
      if next ≤ Text.greatestWord then absorb next digits else (significand, digit :: digits)

/-- The double nearest to a power of ten. -/
def powerOfTen (exponent : Nat) : Float :=
  .ofScientific 1 false exponent

/-- A significand scaled by a power of ten, unless the result is too large.  Powers
down to `10 ^ -308` take one division, smaller ones two, and beyond those nothing is
left. -/
def scale? (significand : Nat) (exponent : Int) : Option Float :=
  let value := significand.toUInt64.toFloat
  match exponent with
  | .ofNat magnitude =>
      if significand = 0 then
        some value
      else if magnitude ≤ 308 then
        let scaled := value * powerOfTen magnitude
        if scaled.isInf then none else some scaled
      else
        none
  | .negSucc less =>
      let magnitude := less + 1
      if magnitude ≤ 308 then
        some (value / powerOfTen magnitude)
      else if magnitude ≤ 616 then
        some (value / powerOfTen 308 / powerOfTen (magnitude - 308))
      else
        some 0

/-- The double that a numeral stands for, unless it is too large. -/
def double? (numeral : Numeral) : Option Float :=
  let (significand, left) := absorb 0 numeral.whole
  let fraction := numeral.fraction?.getD []
  let (significand, leftBehind) := absorb significand fraction
  let exponent : Int :=
    (left.length : Int) - (fraction.length - leftBehind.length : Nat) +
      numeral.exponent?.getD 0
  (scale? significand exponent).map fun value => if numeral.isNegative then -value else value

/-- The integer that a numeral stands for, if it is one. -/
def integer? (numeral : Numeral) : Option Int :=
  let (significand, left) := absorb 0 numeral.whole
  if numeral.fraction?.isSome || numeral.exponent?.isSome || !left.isEmpty then
    none
  else if !numeral.isNegative then
    some significand
  else if significand = 0 ∨ 0x8000000000000000 < significand then
    none
  else
    some (-significand)

/-- The number that a numeral stands for, unless it is too large. -/
def value? (numeral : Numeral) : Option Number :=
  match numeral.integer? with
  | some value => some (.integer value)
  | none => numeral.double?.map .double

end Numeral

/-- Read a number. -/
def readNumber (bytes : List UInt8) : Except Fault (Number × List UInt8) := do
  let (numeral, rest) ← readNumeral bytes
  match numeral.value? with
  | some number => return (number, rest)
  | none => .error .malformed

/-- Skip a numeral.  One that is cut short counts as malformed here. -/
def skipNumeral (bytes : List UInt8) : Except Fault (List UInt8) :=
  match readNumeral bytes with
  | .ok (_, rest) => .ok rest
  | .error _ => .error .malformed

/-! ## Writing doubles -/

/-- The written form of a decimal number.  The point stands among the digits when the
number is at least `0.00001` and has at most sixteen digits in front of the point;
otherwise it stands behind the first digit and a signed exponent follows. -/
def formatDecimal (decimal : Text.Decimal) : String :=
  let digits := toString decimal.digits
  let count := digits.length
  let point : Int := count + decimal.exponent
  let zeros (count : Nat) : String := String.ofList (List.replicate count '0')
  let firsts (count : Nat) : String := String.ofList (digits.toList.take count)
  let others (count : Nat) : String := String.ofList (digits.toList.drop count)
  if 0 ≤ decimal.exponent ∧ point ≤ 16 then
    digits ++ zeros decimal.exponent.toNat ++ ".0"
  else if 0 < point ∧ point ≤ 16 then
    firsts point.toNat ++ "." ++ others point.toNat
  else if -5 < point ∧ point ≤ 0 then
    "0." ++ zeros (-point).toNat ++ digits
  else
    let power := (if 0 < point then "e+" else "e") ++ toString (point - 1)
    if count = 1 then digits ++ power else firsts 1 ++ "." ++ others 1 ++ power

/-- The written form of a double that is a number and not infinite, with the fewest
digits that stand for it. -/
def formatDouble (value : Float) : String :=
  let bits := value.toBits.toNat
  let leadingBit := 1 <<< 52
  let sign := if bits >>> 63 = 1 then "-" else ""
  let exponent := (bits >>> 52) % 2048
  let fraction := bits % leadingBit
  if exponent = 0 ∧ fraction = 0 then
    sign ++ "0.0"
  else if exponent = 0 then
    sign ++ formatDecimal (Text.shortestDecimal fraction (-1074))
  else
    sign ++ formatDecimal
      (Text.shortestDecimal (leadingBit + fraction) (.subNatNat exponent 1075))

end ByteSignature.Json
