import ByteSignature.Proofs.Literal.Links
import ByteSignature.Proofs.Literal.Set
import ByteSignature.Proofs.Table.Dense
import ByteSignature.Scan.Basic

/-!
# Searching for literals

The table of a literal set for searching moves between the nodes of the longest suffixes of
what was read, and its accept flags are the ids of the longest literals read last.  A scan
therefore stops where an occurrence of a literal ends first, with the id of the longest
literal that ends there.
-/

namespace ByteSignature

open Trie

/-! ## The moves of a search table -/

variable {trie : Trie} {words literals : List (List UInt8)} {table : Table}

namespace LiteralSet

/-- The entries of a node are its moves. -/
theorem mem_searchEntries_iff (holds : Holds trie words literals)
    (numberable : Numberable literals) (fits : trie.size ≤ tableStateSpace) {id : Nat}
    (lt : id < trie.size) {symbol : UInt8} {transition : Table.Transition} :
    Table.Entry.ofPair (⟨id.toUInt16, symbol⟩, transition) ∈
        trie.order.flatMap (searchEntries trie.links) ↔
      ∃ target, (trie.links.movesOf id).lookup symbol = some target ∧
        transition = ⟨target.toUInt16, trie.links.outputOf target⟩ := by
  have ascending : ∀ {other : Nat}, other < trie.size →
      Ascending (trie.links.movesOf other) := by
    intro other otherLt
    obtain ⟨word, placed⟩ := holds.spells.exists_word otherLt
    exact (holds.advances numberable placed).ascending
  simp only [List.mem_flatMap, searchEntries, List.mem_map, Table.Entry.ofPair,
    Table.Entry.mk.injEq, holds.spells.mem_order_iff]
  constructor
  · rintro ⟨other, otherLt, move, moveMem, sameState, rfl, nextEq, acceptEq⟩
    have same : other = id := (toUInt16_inj (Nat.lt_of_lt_of_le otherLt fits)
      (Nat.lt_of_lt_of_le lt fits)).mp sameState
    subst same
    refine ⟨move.2, (ascending lt).lookup_eq_some_iff.mpr moveMem, ?_⟩
    rw [nextEq, acceptEq]
  · rintro ⟨target, found, rfl⟩
    exact ⟨id, lt, (symbol, target), (ascending lt).lookup_eq_some_iff.mp found, rfl, rfl, rfl,
      rfl⟩

/-- No two entries share a state and a byte. -/
theorem nodup_searchEntries (holds : Holds trie words literals)
    (numberable : Numberable literals) (fits : trie.size ≤ tableStateSpace) :
    ((trie.order.flatMap (searchEntries trie.links)).map Table.Entry.key).Nodup := by
  have inRange : ∀ {id : Nat}, id ∈ trie.order → id < trie.size := holds.spells.mem_order_iff.mp
  apply Table.nodup_keys_flatMap id
  · rw [List.map_id]
    exact Graph.nodup_discover _ _ _
  · intro node nodeMem
    exact Nat.lt_of_lt_of_le (inRange nodeMem) fits
  · intro node _ entry entryMem
    rcases List.mem_map.mp entryMem with ⟨move, _, rfl⟩
    rfl
  · intro node nodeMem
    obtain ⟨word, placed⟩ := holds.spells.exists_word (inRange nodeMem)
    rw [searchEntries, List.map_map]
    exact (holds.advances numberable placed).ascending.nodup

theorem searchTable_eq_ok_iff {set : LiteralSet} {limit : Nat} :
    set.searchTable limit = .ok table ↔ (ofSet set).size ≤ limit ∧
      Table.ofEntries ((ofSet set).order.flatMap (searchEntries (ofSet set).links)) =
        .ok table :=
  checkedTable_eq_ok_iff

end LiteralSet

/-- A table moves from each word to the longest suffix of the word with the byte behind it,
starting over where that is empty, and flags the literals that end there. -/
structure Searches (table : Table) (words literals : List (List UInt8)) : Prop where
  missing : ∀ {id : Nat} {word : List UInt8}, words[id]? = some word → ∀ {symbol : UInt8},
    table.lookup id.toUInt16 symbol = none → suffixIn words (word ++ [symbol]) = []
  found : ∀ {id : Nat} {word : List UInt8}, words[id]? = some word → ∀ {symbol : UInt8}
    {transition : Table.Transition}, table.lookup id.toUInt16 symbol = some transition →
    ∃ target : Nat, words[target]? = some (suffixIn words (word ++ [symbol])) ∧
      transition = ⟨target.toUInt16, suffixId literals (word ++ [symbol])⟩

theorem searches_of_ofEntries (holds : Holds trie words literals)
    (numberable : Numberable literals) (fits : trie.size ≤ tableStateSpace)
    (made : Table.ofEntries (trie.order.flatMap (LiteralSet.searchEntries trie.links)) =
      .ok table) : Searches table words literals := by
  have lookup_iff : ∀ {id : Nat} {word : List UInt8}, words[id]? = some word →
      ∀ {symbol : UInt8} {transition : Table.Transition},
        table.lookup id.toUInt16 symbol = some transition ↔
          ∃ target, (trie.links.movesOf id).lookup symbol = some target ∧
            transition = ⟨target.toUInt16, trie.links.outputOf target⟩ := by
    intro id word placed symbol transition
    rw [Table.lookup_ofEntries made]
    exact LiteralSet.mem_searchEntries_iff holds numberable fits (holds.spells.lt_size placed)
  constructor
  · intro id word placed symbol none
    have advances := holds.advances numberable placed
    cases moved : (trie.links.movesOf id).lookup symbol with
    | some target =>
        rw [(lookup_iff placed).mpr ⟨target, moved, rfl⟩] at none
        cases none
    | none =>
        have longest := advances.getElem?_getD holds.spells symbol
        rw [moved, Option.getD_none, holds.spells.root] at longest
        exact (Option.some.inj longest).symm
  · intro id word placed symbol transition found
    rcases (lookup_iff placed).mp found with ⟨target, moved, rfl⟩
    have targetPlaced :=
      (((holds.advances numberable placed).lookup_iff symbol target).mp moved).2
    refine ⟨target, targetPlaced, ?_⟩
    rw [holds.outputOf_eq numberable targetPlaced, suffixId_suffixIn holds.mem_of_mem]

/-! ## Scanning -/

/-- What a scan may find in bytes that come behind a text, without a literal at the end of
the text. -/
inductive ScansTo (literals : List (List UInt8)) (text rest : List UInt8) :
    Option ScanMatch → Prop where
  /-- No literal ends anywhere. -/
  | misses (quiet : ∀ before, before <+: rest → suffixId literals (text ++ before) = 0) :
      ScansTo literals text rest none
  /-- A literal ends at the byte of the match, and none before. -/
  | hits {before after : List UInt8} {symbol : UInt8} {hit : ScanMatch}
      (rest_eq : rest = before ++ symbol :: after)
      (stop_eq : hit.stop = text.length + before.length)
      (patternId_eq : hit.patternId = suffixId literals (text ++ (before ++ [symbol])))
      (patternId_ne : hit.patternId ≠ 0)
      (quiet : ∀ shorter, shorter <+: before → suffixId literals (text ++ shorter) = 0) :
      ScansTo literals text rest (some hit)

theorem forall_prefix_cons {literals : List (List UInt8)} {text rest : List UInt8}
    {symbol : UInt8} (quiet : suffixId literals text = 0)
    (restQuiet : ∀ before, before <+: rest →
      suffixId literals (text ++ [symbol] ++ before) = 0) :
    ∀ before, before <+: symbol :: rest → suffixId literals (text ++ before) = 0 := by
  intro before isPrefix
  cases before with
  | nil =>
      rw [List.append_nil]
      exact quiet
  | cons head before =>
      rcases List.cons_prefix_cons.mp isPrefix with ⟨rfl, restPrefix⟩
      rw [← List.singleton_append, ← List.append_assoc]
      exact restQuiet before restPrefix

/-- A byte at which no literal ends is passed over. -/
theorem ScansTo.cons {text rest : List UInt8} {symbol : UInt8} {result : Option ScanMatch}
    (quiet : suffixId literals text = 0)
    (scans : ScansTo literals (text ++ [symbol]) rest result) :
    ScansTo literals text (symbol :: rest) result := by
  cases scans with
  | misses restQuiet => exact .misses (forall_prefix_cons quiet restQuiet)
  | @hits before after last hit rest_eq stop_eq patternId_eq patternId_ne restQuiet =>
      refine @ScansTo.hits _ _ _ (symbol :: before) after last hit ?_ ?_ ?_ patternId_ne
        (forall_prefix_cons quiet restQuiet)
      · rw [rest_eq, List.cons_append]
      · rw [stop_eq, List.length_append, List.length_singleton, List.length_cons,
          Nat.add_assoc, Nat.add_comm 1]
      · rw [patternId_eq, List.append_assoc, List.singleton_append, List.cons_append]

/-- A scan from the node of the longest suffix of a text reads on to where an occurrence of
a literal ends first. -/
theorem Searches.scansTo (searches : Searches table words literals)
    (closed : PrefixClosed words) (rootPlaced : words[root]? = some [])
    (literalMem : ∀ literal ∈ literals, literal ∈ words) {id : Nat} {text : List UInt8}
    (placed : words[id]? = some (suffixIn words text)) (quiet : suffixId literals text = 0)
    (rest : List UInt8) :
    ScansTo literals text rest
      ((DenseTable.ofTable table).scanFrom id.toUInt16 text.length rest) := by
  induction rest generalizing id text with
  | nil =>
      apply ScansTo.misses
      intro before isPrefix
      rw [List.prefix_nil.mp isPrefix, List.append_nil]
      exact quiet
  | cons symbol rest ih =>
      have nextLength : text.length + 1 = (text ++ [symbol]).length := by
        rw [List.length_append, List.length_singleton]
      have longest := suffixIn_append_singleton closed text symbol
      have nextId : suffixId literals (suffixIn words text ++ [symbol]) =
          suffixId literals (text ++ [symbol]) := by
        rw [← suffixId_suffixIn literalMem, ← longest, suffixId_suffixIn literalMem]
      rw [DenseTable.scanFrom, DenseTable.lookup_ofTable]
      cases found : table.lookup id.toUInt16 symbol with
      | none =>
          have empty := searches.missing placed found
          rw [← longest] at empty
          apply ScansTo.cons quiet
          rw [nextLength]
          apply @ih root
          · rw [empty]
            exact rootPlaced
          · rw [← suffixId_suffixIn literalMem, empty]
            rfl
      | some transition =>
          obtain ⟨target, targetPlaced, rfl⟩ := searches.found placed found
          rw [← longest] at targetPlaced
          simp only [Table.Transition.isAccepting, nextId]
          split
          · rename_i accepting
            refine @ScansTo.hits _ _ _ [] rest symbol _ rfl rfl rfl ?_ ?_
            · simpa using accepting
            · intro shorter isPrefix
              rw [List.prefix_nil.mp isPrefix, List.append_nil]
              exact quiet
          · rename_i notAccepting
            apply ScansTo.cons quiet
            rw [nextLength]
            apply ih targetPlaced
            simpa using notAccepting

/-! ## First occurrences -/

/-- A match ends the occurrence of a literal in a payload that ends first, and carries the
place of the longest literal that ends there, counted from one. -/
structure EndsFirst (literals : List (List UInt8)) (payload : List UInt8) (hit : ScanMatch) :
    Prop where
  stop_lt : hit.stop < payload.length
  earliest : ∀ stop < hit.stop, ∀ literal ∈ literals, ¬ literal <:+ payload.take (stop + 1)
  longest : ∃ literal ∈ literals, literal <:+ payload.take (hit.stop + 1) ∧
    (∀ other ∈ literals, other <:+ payload.take (hit.stop + 1) →
      other.length ≤ literal.length) ∧
    hit.patternId.toNat = 1 + literals.idxOf literal

theorem ScansTo.forall_not_infix {payload : List UInt8} (numberable : Numberable literals)
    (scans : ScansTo literals [] payload none) :
    ∀ literal ∈ literals, ¬ literal <:+: payload := by
  intro literal literalMem occurs
  rcases List.infix_iff_suffix_prefix.mp occurs with ⟨before, suffix, isPrefix⟩
  cases scans with
  | misses quiet =>
      exact (suffixId_eq_zero_iff numberable _).mp (quiet before isPrefix) literal literalMem suffix

theorem ScansTo.endsFirst {payload : List UInt8} (numberable : Numberable literals)
    {hit : ScanMatch} (scans : ScansTo literals [] payload (some hit)) :
    EndsFirst literals payload hit := by
  cases scans with
  | @hits before after symbol _ payload_eq stop_eq patternId_eq patternId_ne quiet =>
      rw [List.length_nil, Nat.zero_add] at stop_eq
      rw [List.nil_append] at patternId_eq
      have upToStop : payload.take (hit.stop + 1) = before ++ [symbol] := by
        simp [payload_eq, stop_eq, List.take_append]
      constructor
      · rw [payload_eq, stop_eq, List.length_append, List.length_cons]
        omega
      · intro stop stopLt literal literalMem suffix
        rw [stop_eq] at stopLt
        rw [payload_eq, List.take_append_of_le_length stopLt] at suffix
        exact (suffixId_eq_zero_iff numberable _).mp (quiet _ (List.take_prefix _ _)) literal
          literalMem suffix
      · rw [upToStop]
        rw [patternId_eq] at patternId_ne ⊢
        obtain ⟨literal, literalMem, suffix, longest, id⟩ :=
          exists_literal_of_suffixId_ne_zero numberable patternId_ne
        exact ⟨literal, literalMem, suffix, longest, id.trans (Nat.add_comm _ _)⟩

/-- A match is in the payload. -/
theorem EndsFirst.exists_infix {payload : List UInt8} {hit : ScanMatch}
    (endsFirst : EndsFirst literals payload hit) : ∃ literal ∈ literals, literal <:+: payload := by
  obtain ⟨literal, literalMem, suffix, _⟩ := endsFirst.longest
  exact ⟨literal, literalMem, suffix.isInfix.trans (List.take_prefix _ _).isInfix⟩

theorem exists_searchTable_of_compileLiterals {options : CompileOptions}
    (compiled : compileLiterals options literals = .ok table)
    (unanchored : options.anchored = false) :
    ∃ set : LiteralSet, set.toList = literals ∧ set.searchTable options.dfaLimit = .ok table := by
  obtain ⟨set, literals_eq, made⟩ := exists_compile_of_compileLiterals compiled
  rw [LiteralSet.compile, unanchored] at made
  exact ⟨set, literals_eq, made⟩

/-- Literals that fit have a table for searching as long as their trie is within the limit. -/
theorem exists_compileLiterals_eq_ok {options : CompileOptions}
    (unanchored : options.anchored = false) (numberable : Numberable literals)
    (size_le : ∀ set : LiteralSet, set.toList = literals →
      (ofSet set).size ≤ options.dfaLimit) :
    ∃ table, compileLiterals options literals = .ok table := by
  obtain ⟨set, literals_eq, compiled_eq⟩ := exists_compileLiterals_eq numberable options
  obtain ⟨words, holds⟩ := exists_holds_ofSet set
  have fits := size_le set literals_eq
  have distinct := LiteralSet.nodup_searchEntries holds set.numberable
    (Nat.le_trans fits options.dfaLimit_le)
  rcases Table.exists_ofEntries_eq_ok_iff.mpr distinct with ⟨table, entered⟩
  refine ⟨table, ?_⟩
  rw [compiled_eq, LiteralSet.compile, unanchored]
  exact LiteralSet.searchTable_eq_ok_iff.mpr ⟨fits, entered⟩

/-- The table of literals for searching finds nothing exactly in payloads without any of
the literals.  In other payloads it finds where one of them ends first, and the longest
that ends there. -/
theorem scan_compileLiterals {options : CompileOptions}
    (compiled : compileLiterals options literals = .ok table)
    (unanchored : options.anchored = false) (payload : List UInt8) :
    ((DenseTable.ofTable table).scan none payload = none ↔
        ∀ literal ∈ literals, ¬ literal <:+: payload) ∧
      ∀ hit, (DenseTable.ofTable table).scan none payload = some hit →
        EndsFirst literals payload hit := by
  obtain ⟨set, rfl, searched⟩ := exists_searchTable_of_compileLiterals compiled unanchored
  obtain ⟨words, holds⟩ := exists_holds_ofSet set
  rcases LiteralSet.searchTable_eq_ok_iff.mp searched with ⟨size_le, made⟩
  have numberable := set.numberable
  have searches := searches_of_ofEntries holds numberable
    (Nat.le_trans size_le options.dfaLimit_le) made
  have scans : ScansTo set.toList [] payload
      ((DenseTable.ofTable table).scan none payload) :=
    searches.scansTo holds.spells.prefixClosed holds.spells.root holds.mem_of_mem
      holds.spells.root rfl payload
  cases scanned : (DenseTable.ofTable table).scan none payload with
  | none =>
      rw [scanned] at scans
      refine ⟨iff_of_true rfl (scans.forall_not_infix numberable), ?_⟩
      intro hit eq
      cases eq
  | some hit =>
      rw [scanned] at scans
      have endsFirst := scans.endsFirst numberable
      constructor
      · apply iff_of_false
        · intro eq
          cases eq
        · intro absent
          obtain ⟨literal, literalMem, occurs⟩ := endsFirst.exists_infix
          exact absent literal literalMem occurs
      · intro other eq
        cases eq
        exact endsFirst

/-- In `ushers` a scan for `he`, `she` and `hers` stops behind `she`, which is longer than
`he`. -/
theorem scan_compileLiterals_ushers :
    ∃ table hit,
      compileLiterals CompileOptions.default
          [[104, 101], [115, 104, 101], [104, 101, 114, 115]] = .ok table ∧
        (DenseTable.ofTable table).scan none [117, 115, 104, 101, 114, 115] = some hit ∧
        hit.stop = 3 ∧ hit.patternId.toNat = 2 := by
  have numberable : Numberable [[104, 101], [115, 104, 101], [104, 101, 114, 115]] :=
    ⟨by decide, by decide⟩
  obtain ⟨table, compiled⟩ := @exists_compileLiterals_eq_ok _ CompileOptions.default rfl numberable
    (by
      intro set literals_eq
      rw [ofSet, literals_eq]
      decide)
  have scan := scan_compileLiterals compiled rfl [117, 115, 104, 101, 114, 115]
  cases scanned : (DenseTable.ofTable table).scan none [117, 115, 104, 101, 114, 115] with
  | none => exact absurd (scan.1.mp scanned) (by decide)
  | some hit =>
      have endsFirst := scan.2 hit scanned
      obtain ⟨literal, literalMem, suffix, longest, id⟩ := endsFirst.longest
      have notLater : ¬ 3 < hit.stop := fun later =>
        endsFirst.earliest 3 later [104, 101] (by decide) (by decide)
      have notEarlier : ¬ hit.stop < 3 := by
        have quiet : ∀ stop < 3,
            ∀ literal ∈ ([[104, 101], [115, 104, 101], [104, 101, 114, 115]] : List (List UInt8)),
              ¬ literal <:+ [117, 115, 104, 101, 114, 115].take (stop + 1) := by decide
        exact fun earlier => quiet hit.stop earlier literal literalMem suffix
      have stop_eq : hit.stop = 3 := by omega
      rw [stop_eq] at suffix longest
      have atLeast := longest [115, 104, 101] (by decide) (by decide)
      have place :
          ∀ literal ∈ ([[104, 101], [115, 104, 101], [104, 101, 114, 115]] : List (List UInt8)),
            literal <:+ [117, 115, 104, 101, 114, 115].take 4 → 3 ≤ literal.length →
            [[104, 101], [115, 104, 101], [104, 101, 114, 115]].idxOf literal = 1 := by decide
      rw [place literal literalMem suffix atLeast] at id
      exact ⟨table, hit, compiled, scanned, stop_eq, id⟩

end ByteSignature
