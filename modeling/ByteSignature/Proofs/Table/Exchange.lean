import ByteSignature.Command.Run
import ByteSignature.Proofs.Table.Json
import ByteSignature.Proofs.Table.Ordered

/-!
# Tables are read back from JSON

Of a JSON library it is assumed that it writes a list of entries as objects with their fields in
order, and that it reads such a list however it is laid out, whether its entries are objects or
lists of numbers, and whatever the order of their fields.  Then a table is read back from either
written form, and a list has a table exactly when no two of its entries share a state and a byte.
The library that is brought along is as assumed.
-/

namespace ByteSignature

open Json (Layout)
open Table (EntryForm arrayTokens)

/-! ## What is assumed of a library -/

/-- The library writes and reads lists of entries as JSON texts. -/
structure JsonLibrary.Lawful (json : JsonLibrary) : Prop where
  /-- Without white space asked for, a list is written with an object for each entry. -/
  compact : ∀ entries, ∃ bytes, json.compact entries = .ok bytes ∧
    Layout (arrayTokens (entries.map (Prod.mk .ordered))) bytes
  /-- In lines, it is the same list. -/
  pretty : ∀ entries, ∃ bytes, json.pretty entries = .ok bytes ∧
    Layout (arrayTokens (entries.map (Prod.mk .ordered))) bytes
  /-- A list is read however it is laid out, and blanks may be left behind it. -/
  read : ∀ written bytes, Layout (arrayTokens written) bytes →
    ∃ rest, json.read bytes = .ok (written.map Prod.snd, rest) ∧
      ∀ byte ∈ rest, Json.isBlank byte = true
  /-- A text may end with blanks. -/
  finish : ∀ rest, (∀ byte ∈ rest, Json.isBlank byte = true) → json.finish rest = .ok ()

namespace Table

variable {json : JsonLibrary} {written : List (EntryForm × Entry)} {bytes : List UInt8}

/-- What a list of entries is made into depends on the entries alone. -/
theorem ofJson_of_layout (lawful : json.Lawful) (layout : Layout (arrayTokens written) bytes) :
    ofJson json bytes = (ofEntries (written.map Prod.snd)).mapError .duplicate := by
  obtain ⟨rest, read, blank⟩ := lawful.read written bytes layout
  simp only [ofJson, read]
  cases ofEntries (written.map Prod.snd) with
  | error second => rfl
  | ok table =>
      simp only [lawful.finish rest blank]
      rfl

theorem ofJson_eq_ok_iff (lawful : json.Lawful) (layout : Layout (arrayTokens written) bytes)
    {table : Table} :
    ofJson json bytes = .ok table ↔ (written.map Prod.snd).Perm table.entries := by
  rw [ofJson_of_layout lawful layout, ← ofEntries_eq_ok_iff]
  cases ofEntries (written.map Prod.snd) with
  | error second => exact iff_of_false nofun nofun
  | ok made =>
      change Except.ok made = _ ↔ _
      simp

/-- A table is read back from the list of its entries. -/
theorem ofJson_entries (lawful : json.Lawful) {table : Table}
    (layout : Layout (arrayTokens (table.entries.map (Prod.mk .ordered))) bytes) :
    ofJson json bytes = .ok table := by
  rw [ofJson_eq_ok_iff lawful layout, List.map_map]
  exact List.Perm.of_eq (List.map_id table.entries)

/-- With a library that is as assumed, a table is written and read back, in lines with a line feed
at the end or without white space.  A list of entries, however each of them is written and wherever
blanks stand, is read exactly when no two of them share a state and a byte, and it gives the table
of its entries, whatever their order. -/
theorem ofJson_encode {json : JsonLibrary} (lawful : json.Lawful) (palette : Palette)
    (table : Table) :
    (∃ bytes, Command.TableFormat.json.encode json palette table = .ok bytes ∧
      ofJson json bytes = .ok table) ∧
    (∃ bytes, table.toJson json = .ok bytes ∧ ofJson json bytes = .ok table) ∧
    ∀ written bytes, Layout (arrayTokens written) bytes →
      ((∃ made, ofJson json bytes = .ok made) ↔ (written.map fun item => item.2.key).Nodup) ∧
        (∀ made, ofJson json bytes = .ok made ↔ (written.map Prod.snd).Perm made.entries) ∧
        ∀ reordered reorderedBytes, Layout (arrayTokens reordered) reorderedBytes →
          (reordered.map Prod.snd).Perm (written.map Prod.snd) →
            ∀ made, ofJson json reorderedBytes = .ok made ↔ ofJson json bytes = .ok made := by
  refine ⟨?lines, ?compact, ?lists⟩
  case lines =>
    obtain ⟨bytes, printed, layout⟩ := lawful.pretty table.entries
    have lineFeed : Layout [] [0x0a] := .nil (List.forall_mem_singleton.mpr rfl)
    have layoutLine := layout.append lineFeed
    rw [List.append_nil] at layoutLine
    refine ⟨bytes ++ [0x0a], ?_, ofJson_entries lawful layoutLine⟩
    rw [Command.TableFormat.encode, toJsonLines, printed]
    rfl
  case compact =>
    obtain ⟨bytes, printed, layout⟩ := lawful.compact table.entries
    exact ⟨bytes, printed, ofJson_entries lawful layout⟩
  case lists =>
    intro written bytes layout
    refine ⟨?_, fun made => ofJson_eq_ok_iff lawful layout, ?_⟩
    · have keys : (written.map fun item => item.2.key) =
          (written.map Prod.snd).map Entry.key := by
        rw [List.map_map]
        rfl
      rw [keys, ← exists_ofEntries_eq_ok_iff]
      exact exists_congr fun made =>
        (ofJson_eq_ok_iff lawful layout).trans ofEntries_eq_ok_iff.symm
    · intro reordered reorderedBytes layoutReordered isPerm made
      rw [ofJson_eq_ok_iff lawful layout, ofJson_eq_ok_iff lawful layoutReordered]
      exact ⟨isPerm.symm.trans, isPerm.trans⟩

end Table

/-! ## The library that is brought along -/

theorem JsonLibrary.lawful_builtIn : builtIn.Lawful where
  compact entries := ⟨_, rfl, Table.layout_renderJson Table.JsonSpacing.isBlank_compact entries⟩
  pretty entries := ⟨_, rfl, Table.layout_renderJson Table.JsonSpacing.isBlank_indented entries⟩
  read written bytes layout := by
    obtain ⟨rest, read, layoutRest⟩ := Table.readEntryList_of_layout layout
    refine ⟨rest, ?_, layoutRest.blank_of_nil⟩
    change (Table.readEntryList bytes).mapError _ = _
    rw [read]
    rfl
  finish rest blank := by
    have skipped : Json.skipBlanks rest = [] := (Layout.nil blank).skipBlanks_nil
    change Table.readEnd rest = .ok ()
    rw [Table.readEnd, skipped]
    rfl

namespace Table

/-- An entry as a list, and one as an object with its fields in another order. -/
def mixedEntries : List (EntryForm × Entry) :=
  [(.list, ⟨0, 32, 1, 0⟩),
    (.object [.accept, .next, .state, .symbol] (by decide), ⟨10, 92, 300, 255⟩)]

/-- They are read with a blank in front of each token, and the other way round without
blanks.  The table that they make is written in lines and read back. -/
theorem ofJson_encode_mixed : ∃ made,
    ofJson .builtIn (" [ [ 0 , 32 , 1 , 0 ] , \x7b \"accept\" : 255 , \"next_state\" : 300 , " ++
      "\"state\" : 10 , \"symbol\" : 92 \x7d ]").toUTF8.toList = .ok made ∧
    ofJson .builtIn ("[\x7b\"accept\":255,\"next_state\":300,\"state\":10,\"symbol\":92\x7d," ++
      "[0,32,1,0]]").toUTF8.toList = .ok made ∧
    ∃ bytes, Command.TableFormat.json.encode .builtIn .plain made = .ok bytes ∧
      ofJson .builtIn bytes = .ok made := by
  have spaced : (" [ [ 0 , 32 , 1 , 0 ] , \x7b \"accept\" : 255 , \"next_state\" : 300 , " ++
      "\"state\" : 10 , \"symbol\" : 92 \x7d ]").toUTF8.toList =
        (arrayTokens mixedEntries).flatMap fun token => [0x20] ++ token.plainBytes := by
    rw [Text.toList_toUTF8_append, Text.toList_toUTF8, Text.toList_toUTF8]
    rfl
  have compact : ("[\x7b\"accept\":255,\"next_state\":300,\"state\":10,\"symbol\":92\x7d," ++
      "[0,32,1,0]]").toUTF8.toList =
        (arrayTokens mixedEntries.reverse).flatMap fun token => [] ++ token.plainBytes := by
    rw [Text.toList_toUTF8_append, Text.toList_toUTF8, Text.toList_toUTF8]
    rfl
  have layout : Layout (arrayTokens mixedEntries) _ :=
    .flatMap_plainBytes [0x20] (List.forall_mem_singleton.mpr rfl) (by decide)
  have layoutReverse : Layout (arrayTokens mixedEntries.reverse) _ :=
    .flatMap_plainBytes [] (List.forall_mem_nil _) (by decide)
  have encodes := ofJson_encode JsonLibrary.lawful_builtIn .plain
  obtain ⟨nodup, -, reordered⟩ := (encodes .empty).2.2 mixedEntries _ layout
  obtain ⟨made, read⟩ := nodup.mpr (by decide)
  rw [spaced, compact]
  exact ⟨made, read, (reordered _ _ layoutReverse (by decide) made).mpr read, (encodes made).1⟩

end Table

end ByteSignature
