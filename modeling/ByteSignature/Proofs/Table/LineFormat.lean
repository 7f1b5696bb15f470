import ByteSignature.Proofs.Table.Text

/-!
# Which texts hold tables

A row is a line of four words: a number, a byte, and two numbers.  A text holds a table exactly
when each of its lines is blank or a row, and no two rows share a state and a byte; the table
then has the entries of the rows and no others.

Numbers may have a plus sign in front.  A byte is written as one character or by two hexadecimal
digits behind `\x`, but the reader takes a plus sign for the first of these digits as well.  So
the bytes it takes are told apart from the bytes that are spelled.
-/

namespace ByteSignature.Table

open Text

/-! ## Numbers -/

/-- The field is a number up to a bound: one or more decimal digits, with or without a plus
sign in front. -/
def SpellsNumber (bound : Nat) (field : List Char) (value : Nat) : Prop :=
  ∃ digits, (field = digits ∨ field = '+' :: digits) ∧ digits ≠ [] ∧
    (∀ digit ∈ digits, digit.isDigit = true) ∧
    value = Nat.ofDigitChars 10 digits 0 ∧ value ≤ bound

theorem digitsValue?_eq_some_iff {digits : List Char} {value : Nat} :
    digitsValue? digits = some value ↔ digits ≠ [] ∧
      (∀ digit ∈ digits, digit.isDigit = true) ∧ value = Nat.ofDigitChars 10 digits 0 := by
  rw [digitsValue?]
  split
  · rename_i bad
    rw [Bool.or_eq_true, List.isEmpty_iff, Bool.not_eq_true', List.all_eq_false] at bad
    simp only [reduceCtorEq, false_iff, not_and]
    intro ne_nil allDigits
    rcases bad with isNil | ⟨digit, digitMem, notDigit⟩
    · exact absurd isNil ne_nil
    · exact absurd (allDigits digit digitMem) notDigit
  · rename_i good
    rw [Bool.not_eq_true, Bool.or_eq_false_iff, List.isEmpty_eq_false_iff, Bool.not_eq_false',
      List.all_eq_true] at good
    rw [Option.some.injEq, eq_comm]
    exact ⟨fun eq => ⟨good.1, good.2, eq⟩, fun known => known.2.2⟩

theorem boundedDecimal?_eq_some_iff {bound value : Nat} {field : List Char} :
    boundedDecimal? bound field = some value ↔ SpellsNumber bound field value := by
  unfold boundedDecimal?
  split
  · rename_i digits
    rw [Option.filter_eq_some_iff, digitsValue?_eq_some_iff, decide_eq_true_eq]
    constructor
    · rintro ⟨⟨ne_nil, allDigits, value_eq⟩, le⟩
      exact ⟨digits, .inr rfl, ne_nil, allDigits, value_eq, le⟩
    · rintro ⟨digits2, plain | signed, ne_nil, allDigits, value_eq, le⟩
      · -- A plus sign is no digit.
        subst plain
        exact absurd (allDigits '+' List.mem_cons_self) (by decide)
      · cases signed
        exact ⟨⟨ne_nil, allDigits, value_eq⟩, le⟩
  · rename_i unsigned
    rw [Option.filter_eq_some_iff, digitsValue?_eq_some_iff, decide_eq_true_eq]
    constructor
    · rintro ⟨⟨ne_nil, allDigits, value_eq⟩, le⟩
      exact ⟨field, .inl rfl, ne_nil, allDigits, value_eq, le⟩
    · rintro ⟨digits, rfl | signed, ne_nil, allDigits, value_eq, le⟩
      · exact ⟨⟨ne_nil, allDigits, value_eq⟩, le⟩
      · exact absurd signed (unsigned digits)

theorem readNumber_eq_ok_iff {name : NumberField} {field : List Char} {value : Nat} :
    readNumber name field = .ok value ↔ SpellsNumber name.bound field value := by
  rw [← boundedDecimal?_eq_some_iff, readNumber]
  cases boundedDecimal? name.bound field <;> simp

/-! ## Bytes -/

/-- The character is the hexadecimal digit of a value below sixteen, in either case. -/
def SpellsDigit (digit : Char) (value : Nat) : Prop :=
  value < 16 ∧ (digit = Symbol.hexDigit value ∨ digit = (Symbol.hexDigit value).toUpper)

/-- The field is a byte: one ASCII character other than the backslash, or `\x` and exactly two
hexadecimal digits, the higher one first. -/
inductive SpellsByte : List Char → UInt8 → Prop where
  | plain {character : Char} (ascii : character.toNat < 128) (notEscape : character ≠ '\\') :
      SpellsByte [character] character.toNat.toUInt8
  | escaped {first second : Char} {high low : Nat} (firstDigit : SpellsDigit first high)
      (secondDigit : SpellsDigit second low) :
      SpellsByte ['\\', 'x', first, second] (16 * high + low).toUInt8

/-- The field is taken for a byte: it is one, or it has a plus sign and a single digit behind
`\x`. -/
inductive TakesByte : List Char → UInt8 → Prop where
  | spelled {field : List Char} {byte : UInt8} (spells : SpellsByte field byte) :
      TakesByte field byte
  | signed {digit : Char} {value : Nat} (spells : SpellsDigit digit value) :
      TakesByte ['\\', 'x', '+', digit] value.toUInt8

instance (digit : Char) (value : Nat) : Decidable (SpellsDigit digit value) :=
  inferInstanceAs (Decidable (_ ∧ _))

theorem hexDigitValue?_toUpper : ∀ value < 16,
    hexDigitValue? (Symbol.hexDigit value).toUpper = some value := by
  decide

theorem toNat_le_of_hexDigitValue? {digit : Char} {value : Nat}
    (found : hexDigitValue? digit = some value) : digit.toNat ≤ 'f'.toNat := by
  rw [hexDigitValue?] at found
  split at found
  · rename_i range
    exact Nat.le_trans range.2 (by decide)
  · split at found
    · rename_i range
      exact range.2
    · split at found
      · rename_i range
        exact Nat.le_trans range.2 (by decide)
      · cases found

theorem hexDigitValue?_eq_some_iff {digit : Char} {value : Nat} :
    hexDigitValue? digit = some value ↔ SpellsDigit digit value := by
  constructor
  · intro found
    have checked : ∀ code < 128, ∀ value ∈ hexDigitValue? (Char.ofNat code),
        SpellsDigit (Char.ofNat code) value := by decide
    have small : digit.toNat < 128 :=
      Nat.lt_of_le_of_lt (toNat_le_of_hexDigitValue? found) (by decide)
    have spells := checked digit.toNat small
    rw [Char.ofNat_toNat] at spells
    exact spells value found
  · rintro ⟨lt, rfl | rfl⟩
    · exact hexDigitValue?_hexDigit value lt
    · exact hexDigitValue?_toUpper value lt

theorem not_spellsDigit_plus (value : Nat) : ¬ SpellsDigit '+' value := by
  rw [← hexDigitValue?_eq_some_iff]
  nofun

theorem SpellsDigit.toNat_lt {digit : Char} {value : Nat} (spells : SpellsDigit digit value) :
    digit.toNat < 128 :=
  Nat.lt_of_le_of_lt (toNat_le_of_hexDigitValue? (hexDigitValue?_eq_some_iff.mpr spells))
    (by decide)

theorem escapedByte?_eq_some_iff {first second : Char} {byte : UInt8} :
    escapedByte? first second = some byte ↔ TakesByte ['\\', 'x', first, second] byte := by
  constructor
  · intro found
    unfold escapedByte? at found
    split at found
    · cases found
    · rename_i low lowFound
      have secondDigit := hexDigitValue?_eq_some_iff.mp lowFound
      split at found
      · rename_i signed
        cases found
        subst signed
        exact .signed secondDigit
      · obtain ⟨high, highFound, rfl⟩ := Option.map_eq_some_iff.mp found
        exact .spelled (.escaped (hexDigitValue?_eq_some_iff.mp highFound) secondDigit)
  · rintro (⟨⟨⟩ | ⟨firstDigit, secondDigit⟩⟩ | secondDigit)
    · have notPlus : first ≠ '+' := by
        rintro rfl
        exact not_spellsDigit_plus _ firstDigit
      simp [escapedByte?, hexDigitValue?_eq_some_iff.mpr firstDigit,
        hexDigitValue?_eq_some_iff.mpr secondDigit, notPlus]
    · simp [escapedByte?, hexDigitValue?_eq_some_iff.mpr secondDigit]

theorem readSymbol_escape {first second : Char} {byte : UInt8} (firstLt : first.toNat < 128)
    (secondLt : second.toNat < 128) (takes : TakesByte ['\\', 'x', first, second] byte) :
    readSymbol ['\\', 'x', first, second] = .ok byte := by
  simp only [readSymbol, firstLt, secondLt, and_self, if_true,
    escapedByte?_eq_some_iff.mpr takes]

theorem readSymbol_eq_ok_iff {field : List Char} {byte : UInt8} :
    readSymbol field = .ok byte ↔ TakesByte field byte := by
  constructor
  · intro read
    unfold readSymbol at read
    split at read
    · rename_i character
      split at read
      · rename_i single
        cases read
        exact .spelled (.plain single.1 single.2)
      · cases read
    · split at read
      · split at read
        · rename_i found
          cases read
          exact escapedByte?_eq_some_iff.mp found
        · cases read
      · cases read
    · split at read <;> cases read
    · cases read
  · intro takes
    cases takes with
    | signed secondDigit =>
        exact readSymbol_escape (by decide) secondDigit.toNat_lt (.signed secondDigit)
    | spelled spells =>
        cases spells with
        | plain ascii notEscape => exact if_pos ⟨ascii, notEscape⟩
        | escaped firstDigit secondDigit =>
            exact readSymbol_escape firstDigit.toNat_lt secondDigit.toNat_lt
              (.spelled (.escaped firstDigit secondDigit))

/-! ## Rows -/

/-- The line is a row for the entry, its byte being written in the given way. -/
def RowOf (writes : List Char → UInt8 → Prop) (line : List Char) (entry : Entry) : Prop :=
  ∃ state symbol next accept, Spaced [state, symbol, next, accept] line ∧
    SpellsNumber 65535 state entry.state.toNat ∧ writes symbol entry.symbol ∧
    SpellsNumber 65535 next entry.next.toNat ∧ SpellsNumber 255 accept entry.accept.toNat

theorem SpellsNumber.le {bound value : Nat} {field : List Char}
    (spells : SpellsNumber bound field value) : value ≤ bound := by
  obtain ⟨_, _, _, _, _, le⟩ := spells
  exact le

theorem toNat_toUInt16_of_spells {field : List Char} {value : Nat}
    (spells : SpellsNumber 65535 field value) : value.toUInt16.toNat = value := by
  have le := spells.le
  simpa using Nat.lt_succ_of_le le

theorem toNat_toUInt8_of_spells {field : List Char} {value : Nat}
    (spells : SpellsNumber 255 field value) : value.toUInt8.toNat = value := by
  have le := spells.le
  simpa using Nat.lt_succ_of_le le

/-- Readers in a row succeed when each of them does. -/
theorem bind_eq_ok_iff {ε α β : Type} {first : Except ε α} {further : α → Except ε β} {result : β} :
    (first >>= further) = .ok result ↔
      ∃ value, first = .ok value ∧ further value = .ok result := by
  cases first with
  | error fault => simp [bind, Except.bind]
  | ok value => simp [bind, Except.bind]

theorem readFields_eq_ok_iff {fields : List (List Char)} {entry : Entry} :
    readFields fields = .ok entry ↔ ∃ state symbol next accept,
      fields = [state, symbol, next, accept] ∧ SpellsNumber 65535 state entry.state.toNat ∧
        TakesByte symbol entry.symbol ∧ SpellsNumber 65535 next entry.next.toNat ∧
        SpellsNumber 255 accept entry.accept.toNat := by
  constructor
  · intro read
    unfold readFields at read
    split at read
    · rename_i state symbol next accept
      simp only [bind_eq_ok_iff, readNumber_eq_ok_iff, readSymbol_eq_ok_iff, pure, Except.pure,
        Except.ok.injEq] at read
      obtain ⟨stateValue, stateSpells, byte, takes, nextValue, nextSpells, acceptValue,
        acceptSpells, rfl⟩ := read
      refine ⟨state, symbol, next, accept, rfl, ?_, takes, ?_, ?_⟩
      · rwa [toNat_toUInt16_of_spells stateSpells]
      · rwa [toNat_toUInt16_of_spells nextSpells]
      · rwa [toNat_toUInt8_of_spells acceptSpells]
    · cases read
  · rintro ⟨state, symbol, next, accept, rfl, stateSpells, takes, nextSpells, acceptSpells⟩
    simp only [readFields, bind_eq_ok_iff, readNumber_eq_ok_iff, readSymbol_eq_ok_iff, pure,
      Except.pure, Except.ok.injEq]
    refine ⟨_, stateSpells, _, takes, _, nextSpells, _, acceptSpells, ?_⟩
    simp

theorem spellsEntry_iff_rowOf {line : List Char} {entry : Entry} :
    SpellsEntry line entry ↔ RowOf TakesByte line entry := by
  simp only [SpellsEntry, readFields_eq_ok_iff, RowOf, spaced_iff]

/-! ## Lists of rows -/

theorem SpellsEntry.unique {line : List Char} {entry entry2 : Entry}
    (spells : SpellsEntry line entry) (spells2 : SpellsEntry line entry2) : entry = entry2 :=
  Except.ok.inj (spells.symm.trans spells2)

theorem SpellsEntry.words_ne_nil {line : List Char} {entry : Entry}
    (spells : SpellsEntry line entry) : words line ≠ [] := by
  intro noWords
  rw [SpellsEntry, noWords] at spells
  cases spells

/-- Lines have a list of entries when each of them is a row. -/
theorem exists_forall₂_spellsEntry_iff {list : List (List Char)} :
    (∃ entries, List.Forall₂ SpellsEntry list entries) ↔
      ∀ line ∈ list, ∃ entry, SpellsEntry line entry := by
  constructor
  · rintro ⟨entries, spelled⟩
    induction spelled with
    | nil => exact List.forall_mem_nil _
    | cons spells _ ih => exact List.forall_mem_cons.mpr ⟨⟨_, spells⟩, ih⟩
  · intro rows
    induction list with
    | nil => exact ⟨[], .nil⟩
    | cons line list ih =>
        rw [List.forall_mem_cons] at rows
        obtain ⟨⟨entry, spells⟩, later⟩ := rows
        obtain ⟨entries, spelled⟩ := ih later
        exact ⟨entry :: entries, .cons spells spelled⟩

theorem mem_iff_of_forall₂_spellsEntry {list : List (List Char)} {entries : List Entry}
    (spelled : List.Forall₂ SpellsEntry list entries) (entry : Entry) :
    entry ∈ entries ↔ ∃ line ∈ list, SpellsEntry line entry := by
  induction spelled with
  | nil => simp
  | @cons line first list entries spells _ ih =>
      have first_iff : entry = first ↔ SpellsEntry line entry := by
        constructor
        · rintro rfl
          exact spells
        · exact fun other => other.unique spells
      simp [ih, first_iff]

/-- Two lines do not give the same state and byte. -/
def GiveOther (writes : List Char → UInt8 → Prop) (line line2 : List Char) : Prop :=
  ∀ entry entry2, RowOf writes line entry → RowOf writes line2 entry2 → entry.key ≠ entry2.key

theorem nodup_keys_iff_of_forall₂_spellsEntry {list : List (List Char)} {entries : List Entry}
    (spelled : List.Forall₂ SpellsEntry list entries) :
    (entries.map Entry.key).Nodup ↔ list.Pairwise (GiveOther TakesByte) := by
  induction spelled with
  | nil => simp
  | @cons line entry list entries spells later ih =>
      rw [List.map_cons, List.nodup_cons, List.pairwise_cons, ih]
      apply and_congr_left
      intro _
      simp only [GiveOther, ← spellsEntry_iff_rowOf, List.mem_map, not_exists, not_and,
        mem_iff_of_forall₂_spellsEntry later]
      constructor
      · intro fresh line2 line2Mem first entry2 firstSpells spells2 same
        rw [firstSpells.unique spells] at same
        exact fresh entry2 ⟨line2, line2Mem, spells2⟩ same.symm
      · rintro others entry2 ⟨line2, line2Mem, spells2⟩ same
        exact others line2 line2Mem entry entry2 spells spells2 same.symm

/-! ## Texts -/

/-- Each line of the text is blank or a row, bytes being written in the given way, and no two
lines give the same state and byte. -/
structure HoldsRows (writes : List Char → UInt8 → Prop) (text : List Char) : Prop where
  rows : ∀ line ∈ lines text,
    (∀ character ∈ line, isBlank character = true) ∨ ∃ entry, RowOf writes line entry
  others : (lines text).Pairwise (GiveOther writes)

theorem mem_wordyLines_iff {text line : List Char} :
    line ∈ wordyLines text ↔ line ∈ lines text ∧ words line ≠ [] := by
  simp [wordyLines, List.mem_filter]

/-- Blank lines give nothing. -/
theorem pairwise_giveOther_wordyLines_iff {text : List Char} :
    (wordyLines text).Pairwise (GiveOther TakesByte) ↔
      (lines text).Pairwise (GiveOther TakesByte) := by
  rw [wordyLines, List.pairwise_filter]
  apply List.Pairwise.iff
  intro line line2
  constructor
  · intro others entry entry2 isRow isRow2
    have wordy := (spellsEntry_iff_rowOf.mpr isRow).words_ne_nil
    have wordy2 := (spellsEntry_iff_rowOf.mpr isRow2).words_ne_nil
    exact others (by simpa using wordy) (by simpa using wordy2) entry entry2 isRow isRow2
  · intro others _ _
    exact others

theorem forall_exists_spellsEntry_iff {text : List Char} :
    (∀ line ∈ wordyLines text, ∃ entry, SpellsEntry line entry) ↔
      ∀ line ∈ lines text, (∀ character ∈ line, isBlank character = true) ∨
        ∃ entry, RowOf TakesByte line entry := by
  simp only [mem_wordyLines_iff, and_imp, spellsEntry_iff_rowOf, ← words_eq_nil_iff,
    or_iff_not_imp_left, ne_eq]

theorem exists_parseText_eq_ok_iff {text : String} :
    (∃ table, parseText text = .ok table) ↔ HoldsRows TakesByte text.toList := by
  constructor
  · rintro ⟨table, parsed⟩
    obtain ⟨entries, spelled, isPerm⟩ := parseText_eq_ok_iff.mp parsed
    have nodup : (entries.map Entry.key).Nodup :=
      exists_ofEntries_eq_ok_iff.mp ⟨table, ofEntries_eq_ok_iff.mpr isPerm⟩
    exact {
      rows := forall_exists_spellsEntry_iff.mp
        (exists_forall₂_spellsEntry_iff.mp ⟨entries, spelled⟩)
      others := pairwise_giveOther_wordyLines_iff.mp
        ((nodup_keys_iff_of_forall₂_spellsEntry spelled).mp nodup) }
  · intro holds
    obtain ⟨entries, spelled⟩ :=
      exists_forall₂_spellsEntry_iff.mpr (forall_exists_spellsEntry_iff.mpr holds.rows)
    have nodup : (entries.map Entry.key).Nodup :=
      (nodup_keys_iff_of_forall₂_spellsEntry spelled).mpr
        (pairwise_giveOther_wordyLines_iff.mpr holds.others)
    obtain ⟨table, made⟩ := exists_ofEntries_eq_ok_iff.mpr nodup
    exact ⟨table, parseText_eq_ok_iff.mpr ⟨entries, spelled, ofEntries_eq_ok_iff.mp made⟩⟩

/-- The table has the entries of the rows. -/
theorem mem_entries_parseText_iff {text : String} {table : Table}
    (parsed : parseText text = .ok table) {entry : Entry} :
    entry ∈ table.entries ↔ ∃ line ∈ lines text.toList, RowOf TakesByte line entry := by
  obtain ⟨entries, spelled, isPerm⟩ := parseText_eq_ok_iff.mp parsed
  rw [← isPerm.mem_iff, mem_iff_of_forall₂_spellsEntry spelled]
  simp only [mem_wordyLines_iff, ← spellsEntry_iff_rowOf]
  constructor
  · rintro ⟨line, ⟨lineMem, -⟩, spells⟩
    exact ⟨line, lineMem, spells⟩
  · rintro ⟨line, lineMem, spells⟩
    exact ⟨line, ⟨lineMem, spells.words_ne_nil⟩, spells⟩

/-- A text holds a table exactly when it holds rows that give different states or bytes, a sign
in front of a single hexadecimal digit being taken as well, and the entries of the table are
those of the rows. -/
theorem parseText_takes_rows (text : String) :
    ((∃ table, parseText text = .ok table) ↔ HoldsRows TakesByte text.toList) ∧
      ∀ table, parseText text = .ok table → ∀ entry, entry ∈ table.entries ↔
        ∃ line ∈ lines text.toList, RowOf TakesByte line entry :=
  ⟨exists_parseText_eq_ok_iff, fun _ parsed _ => mem_entries_parseText_iff parsed⟩

/-- The sign is taken where the format has a digit. -/
theorem parseText_takes_signed_escape :
    (∃ table, parseText "0 \\x+f 1 0" = .ok table) ∧
      ¬ HoldsRows SpellsByte "0 \\x+f 1 0".toList := by
  constructor
  · exact ⟨_, rfl⟩
  · intro holds
    have lineMem : "0 \\x+f 1 0".toList ∈ lines "0 \\x+f 1 0".toList := by decide
    rcases holds.rows _ lineMem with blank | ⟨entry, isRow⟩
    · cases blank '0' (by decide)
    · obtain ⟨state, symbol, next, accept, spaced, -, spells, -⟩ := isRow
      have fields : words "0 \\x+f 1 0".toList =
          ["0".toList, "\\x+f".toList, "1".toList, "0".toList] := by decide
      rw [spaced_iff, fields] at spaced
      cases spaced
      generalize entry.symbol = byte at spells
      cases spells with
      | escaped firstDigit _ => exact not_spellsDigit_plus _ firstDigit

end ByteSignature.Table
