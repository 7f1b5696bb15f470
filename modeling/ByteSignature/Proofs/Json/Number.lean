import ByteSignature.Json.Number
import Mathlib.Data.List.Basic

/-!
# Reading whole numbers

A number that is written with its decimal digits, as far as it fits 64 bits, is read back
as that integer, with what stands behind it left over.  All that is asked of the bytes
behind is that they do not go on with the numeral.
-/

namespace ByteSignature.Json

/-- What follows a step that succeeds works with its result. -/
theorem ok_bind {ε α β : Type} (value : α) (further : α → Except ε β) :
    (Except.ok value >>= further) = further value :=
  rfl

/-! ## Digits -/

/-- The decimal digits of a number. -/
def decimalBytes (value : Nat) : List UInt8 :=
  (Text.decimal value).map byteOf

theorem decimalBytes_of_lt {value : Nat} (lt : value < 10) :
    decimalBytes value = [byteOf value.digitChar] := by
  rw [decimalBytes, Text.decimal, Nat.toDigits_of_lt_base lt, List.map_singleton]

theorem decimalBytes_of_le {value : Nat} (le : 10 ≤ value) :
    decimalBytes value = decimalBytes (value / 10) ++ [byteOf (value % 10).digitChar] := by
  rw [decimalBytes, Text.decimal, Nat.toDigits_of_base_le (by decide) le, List.map_append,
    List.map_singleton]
  rfl

theorem decimalBytes_ne_nil (value : Nat) : decimalBytes value ≠ [] := by
  simp [decimalBytes, Text.decimal, Nat.toDigits_ne_nil]

theorem isDigit_digitChar : ∀ digit < 10, isDigit (byteOf digit.digitChar) = true := by
  decide

theorem digitValue_digitChar : ∀ digit < 10, digitValue (byteOf digit.digitChar) = digit := by
  decide

theorem isDigit_of_mem_decimalBytes {value : Nat} :
    ∀ byte ∈ decimalBytes value, isDigit byte = true := by
  induction value using Nat.strongRecOn with
  | ind value ih =>
      by_cases lt : value < 10
      · rw [decimalBytes_of_lt lt, List.forall_mem_singleton]
        exact isDigit_digitChar value lt
      · rw [decimalBytes_of_le (Nat.not_lt.mp lt), List.forall_mem_append,
          List.forall_mem_singleton]
        exact ⟨ih (value / 10) (by omega), isDigit_digitChar _ (Nat.mod_lt _ (by decide))⟩

/-- Digits behind a number, which they make greater. -/
def extendBy (start : Nat) (digits : List UInt8) : Nat :=
  digits.foldl (fun value digit => 10 * value + digitValue digit) start

theorem le_extendBy (start : Nat) (digits : List UInt8) : start ≤ extendBy start digits := by
  induction digits generalizing start with
  | nil => exact Nat.le_refl _
  | cons digit digits ih =>
      have step := ih (10 * start + digitValue digit)
      change start ≤ extendBy (10 * start + digitValue digit) digits
      omega

/-- The digits of a number spell it. -/
theorem extendBy_decimalBytes (value : Nat) : extendBy 0 (decimalBytes value) = value := by
  induction value using Nat.strongRecOn with
  | ind value ih =>
      by_cases lt : value < 10
      · rw [decimalBytes_of_lt lt]
        change 10 * 0 + digitValue (byteOf value.digitChar) = value
        rw [digitValue_digitChar value lt]
        omega
      · have front := ih (value / 10) (by omega)
        rw [extendBy] at front
        rw [decimalBytes_of_le (Nat.not_lt.mp lt), extendBy, List.foldl_append, front]
        change 10 * (value / 10) + digitValue (byteOf (value % 10).digitChar) = value
        rw [digitValue_digitChar _ (Nat.mod_lt _ (by decide))]
        omega

/-- Only zero begins with a zero. -/
theorem eq_zero_of_head?_decimalBytes {value : Nat}
    (leading : (decimalBytes value).head? = some 0x30) : value = 0 := by
  induction value using Nat.strongRecOn with
  | ind value ih =>
      by_cases lt : value < 10
      · rw [decimalBytes_of_lt lt] at leading
        have spelled := digitValue_digitChar value lt
        rw [Option.some.inj leading] at spelled
        exact spelled.symm
      · have le := Nat.not_lt.mp lt
        rw [decimalBytes_of_le le, List.head?_append_of_ne_nil _ (decimalBytes_ne_nil _)] at leading
        have front := ih (value / 10) (by omega) leading
        omega

/-! ## Numerals -/

/-- The bytes do not go on with a numeral. -/
def EndsNumeral (rest : List UInt8) : Prop :=
  ∀ byte ∈ rest.head?, isDigit byte = false ∧ byte ≠ 0x2e ∧ byte ≠ byteOf 'e' ∧ byte ≠ byteOf 'E'

theorem readDigits_append {digits rest : List UInt8} (nonempty : digits ≠ [])
    (allDigits : ∀ byte ∈ digits, isDigit byte = true)
    (ends : ∀ byte ∈ rest.head?, isDigit byte = false) :
    readDigits (digits ++ rest) = .ok (digits, rest) := by
  have stops : rest.takeWhile isDigit = [] ∧ rest.dropWhile isDigit = rest := by
    cases rest with
    | nil => exact ⟨rfl, rfl⟩
    | cons byte rest =>
        have noDigit := ends byte rfl
        simp [noDigit]
  have taken : (digits ++ rest).takeWhile isDigit = digits := by
    rw [List.takeWhile_append_of_pos allDigits, stops.1, List.append_nil]
  have left : (digits ++ rest).dropWhile isDigit = rest := by
    rw [List.dropWhile_append_of_pos allDigits, stops.2]
  obtain ⟨first, others, rfl⟩ := List.exists_cons_of_ne_nil nonempty
  rw [List.cons_append] at taken left ⊢
  simp only [readDigits, taken, left]

theorem readWhole_decimalBytes (value : Nat) {rest : List UInt8} (ends : EndsNumeral rest) :
    readWhole (decimalBytes value ++ rest) = .ok (decimalBytes value, rest) := by
  have noZero : ¬ ((decimalBytes value).head? = some 0x30 ∧ 1 < (decimalBytes value).length) := by
    rintro ⟨leading, long⟩
    rw [eq_zero_of_head?_decimalBytes leading, decimalBytes_of_lt (by decide)] at long
    exact absurd long (Nat.lt_irrefl 1)
  rw [readWhole, readDigits_append (decimalBytes_ne_nil value) isDigit_of_mem_decimalBytes
    fun byte byteMem => (ends byte byteMem).1]
  exact if_neg noZero

theorem readFraction_of_ends {rest : List UInt8} (ends : EndsNumeral rest) :
    readFraction rest = .ok (none, rest) := by
  unfold readFraction
  split
  · exact absurd rfl (ends 0x2e rfl).2.1
  · rfl

theorem readExponent_of_ends {rest : List UInt8} (ends : EndsNumeral rest) :
    readExponent rest = .ok (none, rest) := by
  cases rest with
  | nil => rfl
  | cons byte rest => exact if_neg (not_or.mpr (ends byte rfl).2.2)

theorem readNumeral_decimalBytes (value : Nat) {rest : List UInt8} (ends : EndsNumeral rest) :
    readNumeral (decimalBytes value ++ rest) =
      .ok (⟨false, decimalBytes value, none, none⟩, rest) := by
  have unsigned : readNumeral (decimalBytes value ++ rest) =
      readMagnitude false (decimalBytes value ++ rest) := by
    unfold readNumeral
    split
    · rename_i tail begins
      -- No digit is a minus sign.
      have minusMem : 0x2d ∈ decimalBytes value := by
        apply List.mem_of_head?
        rw [← List.head?_append_of_ne_nil _ (decimalBytes_ne_nil value), begins]
        rfl
      exact absurd (isDigit_of_mem_decimalBytes _ minusMem) (by decide)
    · rfl
  simp only [unsigned, readMagnitude, readWhole_decimalBytes value ends,
    readFraction_of_ends ends, readExponent_of_ends ends, ok_bind]
  rfl

/-- Digits are absorbed as long as their number fits. -/
theorem absorb_eq_of_le {start : Nat} {digits : List UInt8}
    (fits : extendBy start digits ≤ Text.greatestWord) :
    Numeral.absorb start digits = (extendBy start digits, []) := by
  induction digits generalizing start with
  | nil => rfl
  | cons digit digits ih =>
      have room : 10 * start + digitValue digit ≤ Text.greatestWord :=
        Nat.le_trans (le_extendBy _ digits) fits
      rw [Numeral.absorb, if_pos room]
      exact ih fits

theorem value?_decimalBytes {value : Nat} (fits : value ≤ Text.greatestWord) :
    (⟨false, decimalBytes value, none, none⟩ : Numeral).value? = some (.integer value) := by
  have absorbed := absorb_eq_of_le ((extendBy_decimalBytes value).symm ▸ fits)
  rw [extendBy_decimalBytes] at absorbed
  simp [Numeral.value?, Numeral.integer?, absorbed]

/-- The digits of a number are read as the number. -/
theorem readNumber_decimalBytes {value : Nat} {rest : List UInt8}
    (fits : value ≤ Text.greatestWord) (ends : EndsNumeral rest) :
    readNumber (decimalBytes value ++ rest) = .ok (.integer value, rest) := by
  simp only [readNumber, readNumeral_decimalBytes value ends, ok_bind, value?_decimalBytes fits]
  rfl

end ByteSignature.Json
