import ByteSignature.Proofs.Table.Ordered
import ByteSignature.Proofs.Text.Lines
import ByteSignature.Table.Text
import Mathlib.Data.List.Perm.Basic

/-!
# Tables and their texts

The four fields of a row are words that are read back as the entry they spell.  A text is
read by its rows alone, and in any order they make the same table.  So a table is read back
from its own text and from every text that is laid out anew from it.
-/

namespace ByteSignature

/-! ## Fields -/

namespace Text

theorem isWord_decimal (number : Nat) : IsWord (decimal number) := by
  refine ⟨Nat.toDigits_ne_nil, ?_⟩
  intro character characterMem
  obtain ⟨low, high⟩ := Char.isDigit_iff_toNat.mp (isDigit_of_mem_decimal characterMem)
  exact isBlank_of_visible (Nat.le_trans (by decide) low) (Nat.le_trans high (by decide))

theorem boundedDecimal?_decimal {bound number : Nat} (le : number ≤ bound) :
    boundedDecimal? bound (decimal number) = some number := by
  rw [boundedDecimal?, digitsValue?_decimal]
  · simp [Option.filter, le]
  · -- The digits do not begin with a sign.
    intro digits signed
    have isDigit : '+'.isDigit = true := isDigit_of_mem_decimal (signed ▸ List.mem_cons_self)
    cases isDigit

end Text

namespace Symbol

theorem isPlain_iff {symbol : UInt8} : isPlain symbol = true ↔
    0x21 ≤ symbol.toNat ∧ symbol.toNat ≤ 0x7e ∧ symbol.toNat ≠ 0x5c := by
  simp [isPlain, UInt8.le_iff_toNat_le, ← UInt8.toNat_inj, and_assoc]

theorem toNat_plain {symbol : UInt8} (plain : isPlain symbol = true) :
    (Char.ofNat symbol.toNat).toNat = symbol.toNat := by
  have most := (isPlain_iff.mp plain).2.1
  have valid : symbol.toNat.isValidChar := .inl (by omega)
  rw [Char.ofNat, dif_pos valid]
  rfl

theorem highDigit_lt (symbol : UInt8) : symbol.toNat / 16 < 16 :=
  Nat.div_lt_of_lt_mul symbol.toNat_lt

theorem lowDigit_lt (symbol : UInt8) : symbol.toNat % 16 < 16 :=
  Nat.mod_lt _ (by decide)

theorem hexDigit_visible : ∀ value < 16,
    0x21 ≤ (hexDigit value).toNat ∧ (hexDigit value).toNat ≤ 0x7e := by
  decide

theorem isWord_spell (symbol : UInt8) : Text.IsWord (spell symbol) := by
  rw [spell]
  split
  · rename_i plain
    obtain ⟨least, most, -⟩ := isPlain_iff.mp plain
    refine ⟨List.cons_ne_nil _ _, ?_⟩
    simp only [List.forall_mem_singleton]
    apply Text.isBlank_of_visible <;> rwa [toNat_plain plain]
  · refine ⟨List.cons_ne_nil _ _, ?_⟩
    have visible : ∀ value < 16, Text.isBlank (hexDigit value) = false := fun value lt =>
      Text.isBlank_of_visible (hexDigit_visible value lt).1 (hexDigit_visible value lt).2
    simp only [List.forall_mem_cons]
    exact ⟨rfl, rfl, visible _ (highDigit_lt symbol), visible _ (lowDigit_lt symbol),
      List.forall_mem_nil _⟩

end Symbol

namespace Table

open Text

theorem readNumber_decimal {name : NumberField} {number : Nat} (le : number ≤ name.bound) :
    readNumber name (decimal number) = .ok number := by
  rw [readNumber, boundedDecimal?_decimal le]

theorem hexDigitValue?_hexDigit : ∀ value < 16,
    hexDigitValue? (Symbol.hexDigit value) = some value := by
  decide

theorem hexDigit_ne_plus : ∀ value < 16, Symbol.hexDigit value ≠ '+' := by
  decide

/-- The two digits of an escape spell the byte. -/
theorem escapedByte?_hexDigit (symbol : UInt8) :
    escapedByte? (Symbol.hexDigit (symbol.toNat / 16)) (Symbol.hexDigit (symbol.toNat % 16)) =
      some symbol := by
  have digits : 16 * (symbol.toNat / 16) + symbol.toNat % 16 = symbol.toNat := Nat.div_add_mod _ _
  simp only [escapedByte?, hexDigitValue?_hexDigit _ (Symbol.highDigit_lt symbol),
    hexDigitValue?_hexDigit _ (Symbol.lowDigit_lt symbol),
    if_neg (hexDigit_ne_plus _ (Symbol.highDigit_lt symbol)), Option.map_some, digits]
  rw [Nat.toUInt8_eq, UInt8.ofNat_toNat]

/-- A byte is read back from its written form. -/
theorem readSymbol_spell (symbol : UInt8) : readSymbol (Symbol.spell symbol) = .ok symbol := by
  rw [Symbol.spell]
  split
  · rename_i plain
    obtain ⟨-, most, notBackslash⟩ := Symbol.isPlain_iff.mp plain
    have toNat_eq := Symbol.toNat_plain plain
    have notEscape : Char.ofNat symbol.toNat ≠ '\\' := by
      intro same
      rw [same] at toNat_eq
      exact notBackslash toNat_eq.symm
    have ascii : (Char.ofNat symbol.toNat).toNat < 128 := by omega
    rw [readSymbol, if_pos ⟨ascii, notEscape⟩, toNat_eq]
    simp
  · have ascii : ∀ value < 16, (Symbol.hexDigit value).toNat < 128 := fun value lt =>
      Nat.lt_of_le_of_lt (Symbol.hexDigit_visible value lt).2 (by decide)
    simp only [readSymbol, ascii _ (Symbol.highDigit_lt symbol),
      ascii _ (Symbol.lowDigit_lt symbol), and_self, if_true, escapedByte?_hexDigit]

/-! ## Rows -/

/-- The fields of a row. -/
def fields (entry : Entry) : List (List Char) :=
  [decimal entry.state.toNat, Symbol.spell entry.symbol, decimal entry.next.toNat,
    decimal entry.accept.toNat]

/-- The line of an entry without its break. -/
def row (entry : Entry) : List Char :=
  unwords (fields entry)

theorem renderEntry_eq (entry : Entry) : renderEntry entry = row entry ++ ['\n'] := by
  simp [renderEntry, row, fields, unwords, List.intercalate]

theorem readFields_fields (entry : Entry) : readFields (fields entry) = .ok entry := by
  have state : readNumber .state (decimal entry.state.toNat) = .ok entry.state.toNat :=
    readNumber_decimal (Nat.le_of_lt_succ entry.state.toNat_lt)
  have next : readNumber .next (decimal entry.next.toNat) = .ok entry.next.toNat :=
    readNumber_decimal (Nat.le_of_lt_succ entry.next.toNat_lt)
  have accept : readNumber .accept (decimal entry.accept.toNat) = .ok entry.accept.toNat :=
    readNumber_decimal (Nat.le_of_lt_succ entry.accept.toNat_lt)
  simp [fields, readFields, state, next, accept, readSymbol_spell, bind, Except.bind, pure,
    Except.pure]

theorem isWord_of_mem_fields {entry : Entry} : ∀ field ∈ fields entry, IsWord field := by
  simp [fields, isWord_decimal, Symbol.isWord_spell]

theorem words_row (entry : Entry) : words (row entry) = fields entry :=
  words_unwords isWord_of_mem_fields

theorem isRow_row (entry : Entry) : IsRow (row entry) where
  words_ne_nil := by
    rw [words_row]
    exact List.cons_ne_nil _ _
  noFeed feedMem := by
    have isSpace := eq_space_of_mem_unwords isWord_of_mem_fields feedMem rfl
    cases isSpace
  noReturn returnMem := by
    have isSpace := eq_space_of_mem_unwords isWord_of_mem_fields returnMem rfl
    cases isSpace

/-! ## Reading lines -/

/-- The words of the line are the fields of the entry, as the reader takes them. -/
def SpellsEntry (line : List Char) (entry : Entry) : Prop :=
  readFields (words line) = .ok entry

theorem spellsEntry_row (entry : Entry) : SpellsEntry (row entry) entry := by
  rw [SpellsEntry, words_row, readFields_fields]

theorem readLine_of_blank {line : List Char} (blank : words line = []) (table : Table) :
    readLine table line = .ok table := by
  simp [readLine, blank]

theorem readLine_eq_ok_iff {table next : Table} {line : List Char} (wordy : words line ≠ []) :
    readLine table line = .ok next ↔
      ∃ entry, SpellsEntry line entry ∧ table.insert entry = .ok next := by
  have notEmpty : (words line).isEmpty = false := by simpa using wordy
  simp only [readLine, notEmpty, SpellsEntry]
  cases readFields (words line) with
  | error fault => simp
  | ok entry => cases inserted : table.insert entry <;> simp [inserted]

/-- Lines are read when those that are not blank spell entries that can be added. -/
theorem readLines_eq_ok_iff {number : Nat} {table next : Table} {list : List (List Char)} :
    readLines number table list = .ok next ↔
      ∃ entries, List.Forall₂ SpellsEntry
          (list.filter fun line => !(words line).isEmpty) entries ∧
        table.insertMany entries = .ok next := by
  induction list generalizing number table with
  | nil => simp [readLines, insertMany]
  | cons line list ih =>
      rw [readLines]
      by_cases blank : words line = []
      · rw [readLine_of_blank blank, List.filter_cons_of_neg (by simp [blank])]
        exact ih
      · rw [List.filter_cons_of_pos (by simp [blank])]
        constructor
        · intro read
          split at read
          · cases read
          · rename_i middle readFirst
            obtain ⟨entry, spells, inserted⟩ := (readLine_eq_ok_iff blank).mp readFirst
            obtain ⟨entries, spelled, added⟩ := ih.mp read
            refine ⟨entry :: entries, .cons spells spelled, ?_⟩
            rw [insertMany, inserted]
            exact added
        · rintro ⟨_, allSpelled, added⟩
          obtain ⟨entry, entries, spells, spelled, rfl⟩ :=
            List.forall₂_cons_left_iff.mp allSpelled
          rw [insertMany] at added
          split at added
          · cases added
          · rename_i middle inserted
            rw [(readLine_eq_ok_iff blank).mpr ⟨entry, spells, inserted⟩]
            exact ih.mpr ⟨entries, spelled, added⟩

theorem parseText_eq_ok_iff {text : String} {table : Table} : parseText text = .ok table ↔
    ∃ entries, List.Forall₂ SpellsEntry (wordyLines text.toList) entries ∧
      entries.Perm table.entries := by
  simp only [parseText, readLines_eq_ok_iff, wordyLines, ← ofEntries_eq_ok_iff, ofEntries]

/-! ## A table and its text -/

theorem toList_renderText (table : Table) :
    (renderText table).toList = table.entries.flatMap renderEntry := by
  rw [renderText, String.toList_ofList]

theorem lines_flatMap_renderEntry (entries : List Entry) :
    lines (entries.flatMap renderEntry) = entries.map row := by
  induction entries with
  | nil => rfl
  | cons entry entries ih =>
      have isRow := isRow_row entry
      rw [List.flatMap_cons, renderEntry_eq, List.map_cons, ← ih]
      exact (lines_append_lineEnd_append _ _ .feed).trans
        (congrArg (· ++ _) (lines_append_lineEnd isRow.noFeed isRow.noReturn .feed))

/-- The text of a table lays out its rows. -/
theorem lays_flatMap_renderEntry (entries : List Entry) :
    Lays (entries.map row) (entries.flatMap renderEntry) := by
  induction entries with
  | nil => exact .lastBlank [] (by simp)
  | cons entry entries ih =>
      rw [List.flatMap_cons, renderEntry_eq, List.map_cons]
      exact .line (row entry) .feed ih

theorem relaid_renderText (table : Table) :
    Relaid (renderText table).toList (renderText table).toList := by
  rw [toList_renderText]
  refine ⟨table.entries.map row, ?_, lays_flatMap_renderEntry table.entries⟩
  rw [lines_flatMap_renderEntry]

theorem parseText_of_relaid {table : Table} {text : String}
    (relaid : Relaid (renderText table).toList text.toList) : parseText text = .ok table := by
  obtain ⟨order, isPerm, lays⟩ := relaid
  rw [toList_renderText, lines_flatMap_renderEntry] at isPerm
  have rows : ∀ line ∈ order, IsRow line := by
    intro line lineMem
    obtain ⟨entry, -, rfl⟩ := List.mem_map.mp (isPerm.mem_iff.mp lineMem)
    exact isRow_row entry
  have spelled : List.Forall₂ SpellsEntry (table.entries.map row) table.entries := by
    rw [List.forall₂_map_left_iff, List.forall₂_same]
    exact fun entry _ => spellsEntry_row entry
  obtain ⟨entries, orderSpelled, entriesPerm⟩ := List.perm_comp_forall₂ isPerm spelled
  rw [parseText_eq_ok_iff, lays.wordyLines_eq rows]
  exact ⟨entries, orderSpelled, entriesPerm⟩

/-- A table is read back from its text, and also after the lines have been put in another
order, given other line ends, and set apart by blank lines, with or without an end behind
the last one. -/
theorem parseText_renderText (table : Table) :
    parseText (renderText table) = .ok table ∧
      ∀ text : String, Relaid (renderText table).toList text.toList →
        parseText text = .ok table :=
  ⟨parseText_of_relaid (relaid_renderText table), fun _ => parseText_of_relaid⟩

/-- Rows for a space and for a backslash, the later one first, with two blank lines, of
which the first holds a wide space, both line ends, and no end behind the last row. -/
theorem parseText_renderText_shuffled :
    ∃ table, ofEntries [⟨0, 32, 1, 0⟩, ⟨10, 92, 65535, 255⟩] = .ok table ∧
      parseText "\u3000\r\n10 \\x5c 65535 255\r\n\n0 \\x20 1 0" = .ok table := by
  obtain ⟨table, made⟩ := exists_ofEntries_eq_ok_iff.mpr
    (show ([⟨0, 32, 1, 0⟩, ⟨10, 92, 65535, 255⟩].map Entry.key).Nodup by decide)
  refine ⟨table, made, (parseText_renderText table).2 _ ?_⟩
  refine ⟨[row ⟨10, 92, 65535, 255⟩, row ⟨0, 32, 1, 0⟩], ?_, ?_⟩
  · rw [toList_renderText, lines_flatMap_renderEntry]
    exact (List.Perm.swap _ _ _).trans ((ofEntries_eq_ok_iff.mp made).map row)
  · have text_eq : "\u3000\r\n10 \\x5c 65535 255\r\n\n0 \\x20 1 0".toList =
        ['\u3000'] ++ LineEnd.returnFeed.text ++
          (row ⟨10, 92, 65535, 255⟩ ++ LineEnd.returnFeed.text ++
            ([] ++ LineEnd.feed.text ++ row ⟨0, 32, 1, 0⟩)) := by decide
    rw [text_eq]
    exact .blank _ (List.forall_mem_singleton.mpr rfl) _
      (.line _ _ (.blank _ (List.forall_mem_nil _) _ (.lastLine _)))

end Table

end ByteSignature
