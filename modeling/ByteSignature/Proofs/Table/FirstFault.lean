import ByteSignature.Proofs.Table.LineFormat
import ByteSignature.Proofs.Text.FirstLines

/-!
# The first bad line

Lines are read one after another, each into the table of the lines before it.  So the line that
is reported is the first one that cannot be read, and nothing behind it has a part in that.  A
row whose state and byte were given before is such a line.
-/

namespace ByteSignature.Table

open Text

variable {table : Table} {line : List Char}

/-! ## One line -/

theorem isSome_lookup_iff {state : UInt16} {symbol : UInt8} :
    (table.lookup state symbol).isSome = true ↔
      ∃ entry ∈ table.entries, entry.key = ⟨state, symbol⟩ := by
  rw [Option.isSome_iff_exists]
  constructor
  · rintro ⟨transition, found⟩
    exact ⟨.ofPair (⟨state, symbol⟩, transition), mem_entries_iff.mpr found, rfl⟩
  · rintro ⟨entry, entryMem, key_eq⟩
    cases key_eq
    exact ⟨entry.transition, mem_entries_iff.mp entryMem⟩

/-- An entry is refused when there is one with its key. -/
theorem insert_eq_error_iff {entry : Entry} {second : Duplicate} :
    table.insert entry = .error second ↔
      (∃ entry2 ∈ table.entries, entry2.key = entry.key) ∧ second = ⟨entry.key⟩ := by
  have taken : table.transitions.contains entry.key = true ↔
      ∃ entry2 ∈ table.entries, entry2.key = entry.key := by
    rw [Std.ExtTreeMap.contains_eq_isSome_getElem?]
    exact isSome_lookup_iff
  rw [← taken, insert]
  cases table.transitions.contains entry.key with
  | false => simp
  | true => simp [eq_comm]

/-- Readers in a row do not give a fault that none of them gives. -/
theorem bind_ne_error {ε α β : Type} {first : Except ε α} {further : α → Except ε β} {fault : ε}
    (firstNe : first ≠ .error fault) (furtherNe : ∀ value, further value ≠ .error fault) :
    first >>= further ≠ .error fault := by
  cases first with
  | error other =>
      intro same
      cases same
      exact firstNe rfl
  | ok value => exact furtherNe value

theorem readNumber_ne_duplicate (name : NumberField) (field : List Char) (second : Duplicate) :
    readNumber name field ≠ .error (.duplicate second) := by
  rw [readNumber]
  split <;> nofun

theorem readSymbol_ne_duplicate (field : List Char) (second : Duplicate) :
    readSymbol field ≠ .error (.duplicate second) := by
  unfold readSymbol
  split
  · split <;> nofun
  · split
    · split <;> nofun
    · nofun
  · split <;> nofun
  · nofun

/-- Fields are not at fault for what the table holds. -/
theorem readFields_ne_duplicate (fields : List (List Char)) (second : Duplicate) :
    readFields fields ≠ .error (.duplicate second) := by
  unfold readFields
  split
  · apply bind_ne_error (readNumber_ne_duplicate _ _ _)
    intro state
    apply bind_ne_error (readSymbol_ne_duplicate _ _)
    intro symbol
    apply bind_ne_error (readNumber_ne_duplicate _ _ _)
    intro next
    apply bind_ne_error (readNumber_ne_duplicate _ _ _)
    nofun
  · nofun

/-- A line is a duplicate when it is a row and the table holds its key. -/
theorem readLine_eq_duplicate_iff {second : Duplicate} :
    readLine table line = .error (.duplicate second) ↔
      ∃ entry, SpellsEntry line entry ∧ table.insert entry = .error second := by
  by_cases blank : words line = []
  · rw [readLine_of_blank blank]
    constructor
    · nofun
    · rintro ⟨entry, spells, -⟩
      exact absurd blank spells.words_ne_nil
  · have notEmpty : (words line).isEmpty = false := by simpa using blank
    have noDuplicate := readFields_ne_duplicate (words line) second
    simp only [readLine, notEmpty, SpellsEntry]
    cases fields : readFields (words line) with
    | error fault =>
        rw [fields] at noDuplicate
        simpa using noDuplicate
    | ok entry => cases inserted : table.insert entry <;> simp [inserted]

theorem readLine_congr {line2 : List Char} (same : words line = words line2) :
    readLine table line = readLine table line2 := by
  rw [readLine, readLine, same]

/-! ## Many lines -/

variable {number : Nat} {malformed : MalformedLine} {list : List (List Char)}

/-- Lines are read by their words. -/
theorem readLines_congr {list2 : List (List Char)} (same : list.map words = list2.map words) :
    readLines number table list = readLines number table list2 := by
  induction list generalizing number table list2 with
  | nil =>
      rw [List.map_nil, eq_comm, List.map_eq_nil_iff] at same
      rw [same]
  | cons line list ih =>
      rw [List.map_cons, eq_comm, List.map_eq_cons_iff] at same
      obtain ⟨line2, later2, rfl, words_eq, later_eq⟩ := same
      rw [readLines, readLines, readLine_congr words_eq]
      cases readLine table line with
      | error fault => rfl
      | ok next => exact ih later_eq.symm

/-- Lines are read by reading the first of them and then the later ones. -/
theorem readLines_append (first later : List (List Char)) :
    readLines number table (first ++ later) =
      readLines number table first >>= (readLines (number + first.length) · later) := by
  induction first generalizing number table with
  | nil => rfl
  | cons line first ih =>
      rw [List.cons_append, readLines, readLines]
      cases readLine table line with
      | error fault => rfl
      | ok next =>
          rw [List.length_cons, Nat.add_comm first.length, ← Nat.add_assoc]
          exact ih

/-- A fault is found on a line when those before it were read. -/
theorem exists_of_readLines_eq_error (failed : readLines number table list = .error malformed) :
    ∃ front line later next, list = front ++ line :: later ∧
      readLines number table front = .ok next ∧ readLine next line = .error malformed.fault ∧
      malformed.line = number + front.length := by
  induction list generalizing number table with
  | nil => cases failed
  | cons line list ih =>
      rw [readLines] at failed
      split at failed
      · rename_i fault faulty
        cases failed
        exact ⟨[], line, list, table, rfl, rfl, faulty, rfl⟩
      · rename_i middle read
        obtain ⟨front, line2, later, next, rfl, front_read, faulty, number_eq⟩ := ih failed
        refine ⟨line :: front, line2, later, next, rfl, ?_, faulty, ?_⟩
        · rw [readLines, read]
          exact front_read
        · rw [number_eq, List.length_cons]
          omega

theorem readLines_append_of_error {first : List (List Char)}
    (failed : readLines number table first = .error malformed) (later : List (List Char)) :
    readLines number table (first ++ later) = .error malformed := by
  rw [readLines_append, failed]
  rfl

/-- What is read of some lines up to a fault is read of all lines that begin with their words. -/
theorem readLines_eq_error_of_isPrefix {list2 : List (List Char)}
    (failed : readLines number table list = .error malformed)
    (begins : list.map words <+: list2.map words) :
    readLines number table list2 = .error malformed := by
  obtain ⟨wordsBehind, list2_eq⟩ := begins
  obtain ⟨first, later, rfl, first_eq, -⟩ := List.map_eq_append_iff.mp list2_eq.symm
  apply readLines_append_of_error
  rwa [readLines_congr first_eq]

/-! ## Texts -/

/-- The line is a row with the key. -/
def Gives (line : List Char) (key : Key) : Prop :=
  ∃ entry, RowOf TakesByte line entry ∧ entry.key = key

/-- The line with the number, counted from one, gives a key that a line before it gives. -/
def Repeats (text : List Char) (number : Nat) (key : Key) : Prop :=
  ∃ front line later, lines text = front ++ line :: later ∧ number = front.length + 1 ∧
    Gives line key ∧ ∃ earlier ∈ front, Gives earlier key

/-- The reported line is the first one that cannot be read. -/
structure IsFirstFault (text : String) (malformed : MalformedLine) : Prop where
  line_pos : 0 < malformed.line
  line_le : malformed.line ≤ (lines text.toList).length
  before : ∃ table,
    parseText (String.ofList (firstLines (malformed.line - 1) text.toList)) = .ok table
  through : ∀ text2 : String, Continues (firstLines malformed.line text.toList) text2.toList →
    parseText text2 = .error malformed

theorem parseText_firstLines (count : Nat) (text : String) :
    parseText (String.ofList (firstLines count text.toList)) =
      readLines 1 .empty ((lines text.toList).take count) := by
  rw [parseText, String.toList_ofList, lines_firstLines]

theorem parseText_firstLines_eq_ok {front later : List (List Char)} {text : String}
    (lines_eq : lines text.toList = front ++ later)
    (read : readLines 1 .empty front = .ok table) :
    parseText (String.ofList (firstLines front.length text.toList)) = .ok table := by
  rwa [parseText_firstLines, lines_eq, List.take_left]

/-- Texts are read alike up to a fault when they have the same words there. -/
theorem parseText_eq_error_of_continues {front : List Char} {text : String}
    (failed : readLines 1 .empty (lines front) = .error malformed)
    (continues : Continues front text.toList) : parseText text = .error malformed :=
  readLines_eq_error_of_isPrefix failed continues.map_words_lines_isPrefix

theorem isFirstFault_of_parseText {text : String} (failed : parseText text = .error malformed) :
    IsFirstFault text malformed := by
  obtain ⟨front, line, later, next, lines_eq, read, faulty, line_eq⟩ :=
    exists_of_readLines_eq_error failed
  have through_eq : (lines text.toList).take malformed.line = front ++ [line] := by
    rw [lines_eq, line_eq, Nat.add_comm, List.take_length_add_append]
    rfl
  have throughFailed : readLines 1 .empty (front ++ [line]) = .error malformed := by
    rw [readLines_append, read]
    simp [bind, Except.bind, readLines, faulty, ← line_eq]
  exact {
    line_pos := by omega
    line_le := by
      rw [lines_eq, List.length_append, List.length_cons]
      omega
    before := by
      rw [line_eq, Nat.add_sub_cancel_left]
      exact ⟨next, parseText_firstLines_eq_ok lines_eq read⟩
    through := by
      intro text2 continues
      refine parseText_eq_error_of_continues ?_ continues
      rwa [lines_firstLines, through_eq] }

/-! ## Repeated rows -/

/-- Lines that are read are the lines of a text. -/
theorem exists_parseText_eq {front later : List (List Char)} {text : String}
    (lines_eq : lines text.toList = front ++ later)
    (read : readLines 1 .empty front = .ok table) :
    ∃ text2 : String, lines text2.toList = front ∧ parseText text2 = .ok table := by
  refine ⟨_, ?_, parseText_firstLines_eq_ok lines_eq read⟩
  rw [String.toList_ofList, lines_firstLines, lines_eq, List.take_left]

/-- The keys of a table are those that its lines give. -/
theorem exists_gives_iff {text : String} (parsed : parseText text = .ok table) {key : Key} :
    (∃ earlier ∈ lines text.toList, Gives earlier key) ↔
      ∃ entry ∈ table.entries, entry.key = key := by
  simp only [mem_entries_parseText_iff parsed, Gives]
  constructor
  · rintro ⟨earlier, earlierMem, entry, isRow, key_eq⟩
    exact ⟨entry, ⟨earlier, earlierMem, isRow⟩, key_eq⟩
  · rintro ⟨entry, ⟨earlier, earlierMem, isRow⟩, key_eq⟩
    exact ⟨earlier, earlierMem, entry, isRow, key_eq⟩

/-- A line is a duplicate when it gives a key that the lines before it give. -/
theorem readLine_eq_duplicate_iff_gives {text : String} (parsed : parseText text = .ok table)
    {key : Key} : readLine table line = .error (.duplicate ⟨key⟩) ↔
      Gives line key ∧ ∃ earlier ∈ lines text.toList, Gives earlier key := by
  rw [exists_gives_iff parsed, Gives]
  simp only [readLine_eq_duplicate_iff, insert_eq_error_iff, spellsEntry_iff_rowOf,
    Duplicate.mk.injEq]
  constructor
  · rintro ⟨entry, isRow, taken, rfl⟩
    exact ⟨⟨entry, isRow, rfl⟩, taken⟩
  · rintro ⟨⟨entry, isRow, rfl⟩, taken⟩
    exact ⟨entry, isRow, taken, rfl⟩

/-- Lines that were read give each key once. -/
theorem not_gives_of_append {text : String} (parsed : parseText text = .ok table)
    {front : List (List Char)} (begins : front ++ [line] <+: lines text.toList) {key : Key}
    (gives : Gives line key) : ¬ ∃ earlier ∈ front, Gives earlier key := by
  rintro ⟨earlier, earlierMem, entry, isRow, key_eq⟩
  obtain ⟨entry2, isRow2, key_eq2⟩ := gives
  have holds := exists_parseText_eq_ok_iff.mp ⟨table, parsed⟩
  have others := (List.pairwise_append.mp (holds.others.sublist begins.sublist)).2.2
  exact others earlier earlierMem line List.mem_cons_self entry entry2 isRow isRow2
    (key_eq.trans key_eq2.symm)

/-- A text without a table is refused for its first line that cannot be read.  It is a duplicate
only as a row with the state and byte of an earlier one.  Such a row is refused as a duplicate
unless there is a fault before it. -/
theorem parseText_refuses_first_fault {text : String} {malformed : MalformedLine}
    (failed : parseText text = .error malformed) :
    IsFirstFault text malformed ∧
      (∀ key, malformed.fault = .duplicate ⟨key⟩ → Repeats text.toList malformed.line key) ∧
      ∀ number key, Repeats text.toList number key →
        malformed.line < number ∨ malformed = ⟨number, .duplicate ⟨key⟩⟩ := by
  obtain ⟨front, line, later, next, lines_eq, read, faulty, line_eq⟩ :=
    exists_of_readLines_eq_error failed
  obtain ⟨text2, rfl, parsed⟩ := exists_parseText_eq lines_eq read
  have duplicate_iff (key : Key) : malformed.fault = .duplicate ⟨key⟩ ↔
      Gives line key ∧ ∃ earlier ∈ lines text2.toList, Gives earlier key := by
    rw [← readLine_eq_duplicate_iff_gives parsed, faulty, Except.error.injEq]
  refine ⟨isFirstFault_of_parseText failed, ?_, ?_⟩
  · intro key isDuplicate
    exact ⟨_, line, later, lines_eq, line_eq.trans (Nat.add_comm _ _),
      (duplicate_iff key).mp isDuplicate⟩
  · rintro number key ⟨front2, line2, later2, lines_eq2, number_eq, gives, repeated⟩
    have same := lines_eq.symm.trans lines_eq2
    rcases Nat.lt_trichotomy (lines text2.toList).length front2.length with lt | eq | gt
    · exact .inl (by omega)
    · obtain ⟨front_eq, rest_eq⟩ := List.append_inj same eq
      cases rest_eq
      rw [← front_eq] at repeated
      have line_eq2 : malformed.line = number := by omega
      rw [← (duplicate_iff key).mpr ⟨gives, repeated⟩, ← line_eq2]
      exact .inr rfl
    · have within : lines text2.toList <+: lines text.toList := ⟨_, lines_eq.symm⟩
      have within2 : front2 ++ [line2] <+: lines text.toList :=
        ⟨later2, (List.append_cons _ _ _).symm.trans lines_eq2.symm⟩
      have begins : front2 ++ [line2] <+: lines text2.toList := by
        apply List.prefix_of_prefix_length_le within2 within
        rw [List.length_append, List.length_singleton]
        exact Nat.succ_le_of_lt gt
      exact absurd repeated (not_gives_of_append parsed begins gives)

/-- The second row has a blank line before it, a plus sign on its state, and its byte spelled in
digits.  Its line has no end until the text is continued. -/
theorem parseText_refuses_first_fault_repeated :
    parseText "0 a 1 0\n\n+0 \\x61 2 0" = .error ⟨3, .duplicate ⟨⟨0, 97⟩⟩⟩ ∧
      parseText "0 a 1 0\n\n+0 \\x61 2 0\r\nno row" = .error ⟨3, .duplicate ⟨⟨0, 97⟩⟩⟩ := by
  have failed : parseText "0 a 1 0\n\n+0 \\x61 2 0" = .error ⟨3, .duplicate ⟨⟨0, 97⟩⟩⟩ := rfl
  obtain ⟨isFirst, -, -⟩ := parseText_refuses_first_fault failed
  refine ⟨failed, isFirst.through _ ?_⟩
  exact .behindLine .returnFeed "no row".toList

end ByteSignature.Table
