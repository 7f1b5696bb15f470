/-!
# Decimal numbers

Numbers are written with the fewest digits.  Reading is more liberal: a plus sign may
stand in front, and so may zeros, but the value must not pass a given bound.
-/

namespace ByteSignature.Text

/-- The decimal digits of a number. -/
def decimal (number : Nat) : List Char :=
  Nat.toDigits 10 number

/-- The greatest number of 64 bits. -/
def greatestWord : Nat :=
  0xffffffffffffffff

/-- The value of one or more decimal digits. -/
def digitsValue? (digits : List Char) : Option Nat :=
  if digits.isEmpty || !digits.all Char.isDigit then
    none
  else
    some (Nat.ofDigitChars 10 digits 0)

/-- The number that a text spells, when it is at most `bound`. -/
def boundedDecimal? (bound : Nat) (text : List Char) : Option Nat :=
  let digits :=
    match text with
    | '+' :: digits => digits
    | digits => digits
  (digitsValue? digits).filter fun value => value ≤ bound

theorem isDigit_of_mem_decimal {number : Nat} {character : Char}
    (h : character ∈ decimal number) : character.isDigit = true :=
  Nat.isDigit_of_mem_toDigits (by decide) (by decide) h

/-- The digits of a number spell it. -/
@[simp]
theorem digitsValue?_decimal (number : Nat) : digitsValue? (decimal number) = some number := by
  have hdigits : (decimal number).all Char.isDigit = true :=
    List.all_eq_true.mpr fun _ => isDigit_of_mem_decimal
  have hne : (decimal number).isEmpty = false := by
    simp [decimal, Nat.toDigits_ne_nil]
  rw [digitsValue?, hdigits, hne]
  simp [decimal]

end ByteSignature.Text
