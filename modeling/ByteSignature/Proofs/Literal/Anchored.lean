import ByteSignature.Proofs.Literal.Set
import ByteSignature.Proofs.Literal.Trie

/-!
# Literals as whole inputs

The table of a literal set for whole inputs moves along the edges of the trie.  Behind a
literal the end marker leads into a state of its own, which nothing leaves.  As no literal
contains the marker, it cannot be taken for an edge of the trie, and the inputs that are
accepted are the literals, each with the id of its first place.
-/

namespace ByteSignature

open Trie

variable {trie : Trie} {words literals : List (List UInt8)} {table : Table}

/-- The end marker does not occur in the literals. -/
def MarkerFree (literals : List (List UInt8)) : Prop :=
  ∀ literal ∈ literals, endMarker ∉ literal

/-- What begins a literal without the marker is without it too. -/
theorem Trie.Holds.endMarker_notMem (holds : Holds trie words literals)
    (markerFree : MarkerFree literals) {word : List UInt8} (wordMem : word ∈ words) :
    endMarker ∉ word := by
  rcases (holds.mem_iff word).mp wordMem with rfl | ⟨literal, literalMem, isPrefix⟩
  · exact List.not_mem_nil
  · exact fun markerMem => markerFree literal literalMem (isPrefix.subset markerMem)

namespace LiteralSet

theorem markerIndex?_eq_none_iff {set : LiteralSet} :
    set.markerIndex? = none ↔ MarkerFree set.toList := by
  simp [markerIndex?, MarkerFree]

theorem anchoredTable_eq_ok_iff {set : LiteralSet} {limit : Nat} :
    set.anchoredTable limit = .ok table ↔
      MarkerFree set.toList ∧ (ofSet set).size + 1 ≤ limit ∧
        Table.ofEntries ((List.range (ofSet set).size).flatMap (anchoredEntries (ofSet set))) =
          .ok table := by
  rw [anchoredTable, ← markerIndex?_eq_none_iff, ← checkedTable_eq_ok_iff]
  cases set.markerIndex? with
  | some index => simp
  | none => exact (and_iff_right rfl).symm

theorem mem_anchoredEntries_iff {id : Nat} {entry : Table.Entry} :
    entry ∈ anchoredEntries trie id ↔
      (∃ symbol child, (symbol, child) ∈ (trie.node id).children ∧
        entry = ⟨id.toUInt16, symbol, child.toUInt16, 0⟩) ∨
      (trie.node id).output ≠ 0 ∧
        entry = ⟨id.toUInt16, endMarker, trie.size.toUInt16, (trie.node id).output⟩ := by
  rw [anchoredEntries]
  simp only [List.mem_append, List.mem_map, Prod.exists]
  apply or_congr
  · simp only [eq_comm]
  · split
    · rename_i unmarked
      simp [unmarked]
    · rename_i marked
      simp [marked]

/-- No two entries share a state and a byte. -/
theorem nodup_anchoredEntries (holds : Holds trie words literals)
    (markerFree : MarkerFree literals) (fits : trie.size ≤ tableStateSpace) :
    (((List.range trie.size).flatMap (anchoredEntries trie)).map Table.Entry.key).Nodup := by
  apply Table.nodup_keys_flatMap id
  · rw [List.map_id]
    exact List.nodup_range
  · intro node nodeMem
    exact Nat.lt_of_lt_of_le (List.mem_range.mp nodeMem) fits
  · intro node _ entry entryMem
    rcases mem_anchoredEntries_iff.mp entryMem with ⟨_, _, _, rfl⟩ | ⟨_, rfl⟩ <;> rfl
  · intro node nodeMem
    obtain ⟨word, placed⟩ := holds.spells.exists_word (List.mem_range.mp nodeMem)
    have noMarkerEdge : endMarker ∉ (trie.node node).children.map Prod.fst := by
      intro edgeMem
      rcases List.mem_map.mp edgeMem with ⟨⟨_, child⟩, childMem, rfl⟩
      have childPlaced := (holds.spells.child_iff placed _ child).mp childMem
      exact holds.endMarker_notMem markerFree (List.mem_of_getElem? childPlaced) (by simp)
    have symbols : (anchoredEntries trie node).map Table.Entry.symbol =
        (trie.node node).children.map Prod.fst ++
          if (trie.node node).output = 0 then [] else [endMarker] := by
      rw [anchoredEntries, List.map_append, List.map_map]
      split <;> rfl
    rw [symbols]
    split
    · rw [List.append_nil]
      exact (holds.spells.ascending node).nodup
    · rw [List.nodup_append_comm]
      exact List.nodup_cons.mpr ⟨noMarkerEdge, (holds.spells.ascending node).nodup⟩

end LiteralSet

/-! ## The moves of a table for whole inputs -/

/-- A table moves from each word to the word with one more byte, and behind a literal the
end marker leads to the sink with the literal's id.  Nothing leaves the sink. -/
structure Matches (table : Table) (words literals : List (List UInt8)) (sink : UInt16) :
    Prop where
  lookup_iff : ∀ {id : Nat} {word : List UInt8}, words[id]? = some word → ∀ {symbol : UInt8}
    {transition : Table.Transition}, table.lookup id.toUInt16 symbol = some transition ↔
      (∃ child : Nat, words[child]? = some (word ++ [symbol]) ∧
        transition = ⟨child.toUInt16, 0⟩) ∨
      word ∈ literals ∧ symbol = endMarker ∧ transition = ⟨sink, literalId literals word⟩
  lookup_sink : ∀ symbol, table.lookup sink symbol = none

theorem matches_of_ofEntries (holds : Holds trie words literals)
    (numberable : Numberable literals) (fits : trie.size + 1 ≤ tableStateSpace)
    (made : Table.ofEntries ((List.range trie.size).flatMap
      (LiteralSet.anchoredEntries trie)) = .ok table) :
    Matches table words literals trie.size.toUInt16 := by
  have found_iff {state : UInt16} {symbol : UInt8} {transition : Table.Transition} :
      table.lookup state symbol = some transition ↔ ∃ id < trie.size,
        Table.Entry.ofPair (⟨state, symbol⟩, transition) ∈
          LiteralSet.anchoredEntries trie id := by
    rw [Table.lookup_ofEntries made, List.mem_flatMap]
    simp only [List.mem_range]
  have state_eq {state : UInt16} {symbol : UInt8} {transition : Table.Transition} {id : Nat}
      (entryMem : Table.Entry.ofPair (⟨state, symbol⟩, transition) ∈
        LiteralSet.anchoredEntries trie id) : state = id.toUInt16 := by
    rcases LiteralSet.mem_anchoredEntries_iff.mp entryMem with ⟨_, _, _, eq⟩ | ⟨_, eq⟩
    · exact (Table.Entry.mk.inj eq).1
    · exact (Table.Entry.mk.inj eq).1
  constructor
  · intro id word placed symbol transition
    have idLt := holds.spells.lt_size placed
    have marked_iff : (trie.node id).output ≠ 0 ↔ word ∈ literals := by
      rw [holds.output_eq placed, ne_eq, literalId_eq_zero_iff numberable, not_not]
    rw [found_iff]
    constructor
    · rintro ⟨other, otherLt, entryMem⟩
      have same : id = other :=
        (toUInt16_inj (Nat.lt_of_lt_of_le idLt (Nat.le_of_succ_le fits))
          (Nat.lt_of_lt_of_le otherLt (Nat.le_of_succ_le fits))).mp (state_eq entryMem)
      subst same
      rcases LiteralSet.mem_anchoredEntries_iff.mp entryMem with
        ⟨edge, child, childMem, eq⟩ | ⟨marked, eq⟩
      · obtain ⟨_, rfl, nextEq, acceptEq⟩ := Table.Entry.mk.inj eq
        refine .inl ⟨child, (holds.spells.child_iff placed symbol child).mp childMem, ?_⟩
        rw [← nextEq, ← acceptEq]
      · obtain ⟨_, rfl, nextEq, acceptEq⟩ := Table.Entry.mk.inj eq
        refine .inr ⟨marked_iff.mp marked, rfl, ?_⟩
        rw [← nextEq, ← holds.output_eq placed, ← acceptEq]
    · intro moves
      refine ⟨id, idLt, LiteralSet.mem_anchoredEntries_iff.mpr ?_⟩
      rcases moves with ⟨child, childPlaced, rfl⟩ | ⟨isLiteral, rfl, rfl⟩
      · exact .inl ⟨symbol, child, (holds.spells.child_iff placed symbol child).mpr childPlaced,
          rfl⟩
      · refine .inr ⟨marked_iff.mpr isLiteral, ?_⟩
        rw [holds.output_eq placed]
        rfl
  · intro symbol
    by_contra found
    obtain ⟨transition, found⟩ := Option.ne_none_iff_exists'.mp found
    obtain ⟨id, idLt, entryMem⟩ := found_iff.mp found
    have same := (toUInt16_inj (Nat.lt_of_lt_of_le (Nat.lt_succ_self _) fits)
      (Nat.lt_of_lt_of_le idLt (Nat.le_of_succ_le fits))).mp (state_eq entryMem)
    exact Nat.ne_of_gt idLt same

/-- From a node some bytes lead to the node of the longer word.  When that is no word, they
lead nowhere or into the sink. -/
theorem Matches.stateAfter_cases {sink : UInt16} (matching : Matches table words literals sink)
    (closed : PrefixClosed words) {id : Nat} {word : List UInt8} (placed : words[id]? = some word)
    (rest : List UInt8) :
    (∃ target : Nat, words[target]? = some (word ++ rest) ∧
        table.stateAfter id.toUInt16 rest = some target.toUInt16) ∨
      word ++ rest ∉ words ∧ (table.stateAfter id.toUInt16 rest = none ∨
        table.stateAfter id.toUInt16 rest = some sink) := by
  induction rest generalizing id word with
  | nil =>
      rw [List.append_nil]
      exact .inl ⟨id, placed, rfl⟩
  | cons symbol rest ih =>
      have longer : word ++ symbol :: rest = word ++ [symbol] ++ rest := by simp
      rw [longer]
      by_cases childMem : word ++ [symbol] ∈ words
      · obtain ⟨child, childPlaced⟩ := List.mem_iff_getElem?.mp childMem
        have found := (matching.lookup_iff placed).mpr (.inl ⟨child, childPlaced, rfl⟩)
        rw [Table.stateAfter, found]
        exact ih childPlaced
      · right
        constructor
        · exact fun wordMem => childMem (closed _ wordMem _ (List.prefix_append _ _))
        · rw [Table.stateAfter]
          cases found : table.lookup id.toUInt16 symbol with
          | none => exact .inl rfl
          | some transition =>
              rcases (matching.lookup_iff placed).mp found with
                ⟨child, childPlaced, _⟩ | ⟨_, _, rfl⟩
              · exact absurd (List.mem_of_getElem? childPlaced) childMem
              · cases rest with
                | nil => exact .inr rfl
                | cons next rest =>
                    left
                    simp only [Table.stateAfter, matching.lookup_sink]

/-- The end marker leads on from a word exactly when it is a literal. -/
theorem Matches.lookup_endMarker {sink : UInt16}
    (matching : Matches table words literals sink)
    (markerFree : ∀ word ∈ words, endMarker ∉ word) {id : Nat} {word : List UInt8}
    (placed : words[id]? = some word) :
    table.lookup id.toUInt16 endMarker =
      if word ∈ literals then some ⟨sink, literalId literals word⟩ else none := by
  by_cases isLiteral : word ∈ literals
  · rw [if_pos isLiteral]
    exact (matching.lookup_iff placed).mpr (.inr ⟨isLiteral, rfl, rfl⟩)
  · rw [if_neg isLiteral]
    cases found : table.lookup id.toUInt16 endMarker with
    | none => rfl
    | some transition =>
        rcases (matching.lookup_iff placed).mp found with
          ⟨child, childPlaced, _⟩ | ⟨isLiteral2, _⟩
        · exact absurd (by simp) (markerFree _ (List.mem_of_getElem? childPlaced))
        · exact absurd isLiteral2 isLiteral

/-- An input is accepted when it is a literal, with the id of that literal. -/
theorem Matches.acceptsAnchored_eq {sink : UInt16}
    (matching : Matches table words literals sink) (numberable : Numberable literals)
    (closed : PrefixClosed words) (rootPlaced : words[root]? = some [])
    (literalMem : ∀ literal ∈ literals, literal ∈ words)
    (markerFree : ∀ word ∈ words, endMarker ∉ word) (input : List UInt8) :
    table.acceptsAnchored input =
      if input ∈ literals then some (literalId literals input) else none := by
  have start : (0 : UInt16) = root.toUInt16 := rfl
  rw [Table.acceptsAnchored, start]
  rcases matching.stateAfter_cases closed rootPlaced input with
    ⟨id, placed, reached⟩ | ⟨notMem, reached | reached⟩
  · rw [List.nil_append] at placed
    simp only [reached, matching.lookup_endMarker markerFree placed]
    by_cases isLiteral : input ∈ literals
    · have nonzero : literalId literals input ≠ 0 :=
        mt (literalId_eq_zero_iff numberable).mp (not_not_intro isLiteral)
      simp [isLiteral, Table.Transition.isAccepting, nonzero]
    · simp [isLiteral]
  · rw [if_neg fun isLiteral => notMem (literalMem input isLiteral), reached]
  · rw [if_neg fun isLiteral => notMem (literalMem input isLiteral)]
    simp only [reached, matching.lookup_sink]

/-! ## Compiled literals -/

/-- Literals that fit and are free of the end marker have a table for whole inputs as long
as their trie and one more state are within the limit. -/
theorem exists_anchored_compileLiterals_eq_ok {options : CompileOptions}
    (anchored : options.anchored = true) (numberable : Numberable literals)
    (markerFree : MarkerFree literals)
    (size_lt : ∀ set : LiteralSet, set.toList = literals →
      (ofSet set).size < options.dfaLimit) :
    ∃ table, compileLiterals options literals = .ok table := by
  obtain ⟨set, rfl, compiled_eq⟩ := exists_compileLiterals_eq numberable options
  obtain ⟨words, holds⟩ := exists_holds_ofSet set
  have fits := size_lt set rfl
  have distinct := LiteralSet.nodup_anchoredEntries holds markerFree
    (Nat.le_trans (Nat.le_of_lt fits) options.dfaLimit_le)
  rcases Table.exists_ofEntries_eq_ok_iff.mpr distinct with ⟨table, entered⟩
  refine ⟨table, ?_⟩
  rw [compiled_eq, LiteralSet.compile, anchored]
  exact LiteralSet.anchoredTable_eq_ok_iff.mpr ⟨markerFree, fits, entered⟩

/-- The table of literals for whole inputs has an answer for the literals alone. -/
theorem acceptsAnchored_eq_of_compileLiterals {options : CompileOptions}
    (compiled : compileLiterals options literals = .ok table)
    (anchored : options.anchored = true) (input : List UInt8) :
    table.acceptsAnchored input =
      if input ∈ literals then some (literalId literals input) else none := by
  obtain ⟨set, rfl, made⟩ := exists_compile_of_compileLiterals compiled
  rw [LiteralSet.compile, anchored] at made
  obtain ⟨markerFree, fits, entered⟩ := LiteralSet.anchoredTable_eq_ok_iff.mp made
  obtain ⟨words, holds⟩ := exists_holds_ofSet set
  have matching := matches_of_ofEntries holds set.numberable
    (Nat.le_trans fits options.dfaLimit_le) entered
  exact matching.acceptsAnchored_eq set.numberable holds.spells.prefixClosed holds.spells.root
    holds.mem_of_mem (fun word wordMem => holds.endMarker_notMem markerFree wordMem) input

/-- The table of literals for whole inputs accepts exactly the literals, each with its first
place in the list, counted from one. -/
theorem acceptsAnchored_compileLiterals {options : CompileOptions}
    (compiled : compileLiterals options literals = .ok table)
    (anchored : options.anchored = true) (input : List UInt8) :
    (table.acceptsAnchored input).map UInt8.toNat =
      (literals.idxOf? input).map fun place => place + 1 := by
  obtain ⟨set, rfl, made⟩ := exists_compile_of_compileLiterals compiled
  rw [LiteralSet.compile, anchored] at made
  obtain ⟨markerFree, fits, entered⟩ := LiteralSet.anchoredTable_eq_ok_iff.mp made
  obtain ⟨words, holds⟩ := exists_holds_ofSet set
  have numberable := set.numberable
  have matching := matches_of_ofEntries holds numberable (Nat.le_trans fits options.dfaLimit_le)
    entered
  rw [matching.acceptsAnchored_eq numberable holds.spells.prefixClosed holds.spells.root
    holds.mem_of_mem fun word wordMem => holds.endMarker_notMem markerFree wordMem]
  by_cases isLiteral : input ∈ set.toList
  · cases found : set.toList.idxOf? input with
    | none => exact absurd isLiteral (List.idxOf?_eq_none_iff.mp found)
    | some place =>
        have place_eq : set.toList.idxOf input = place := by
          rw [List.idxOf_eq_getD_idxOf?, found, Option.getD_some]
        rw [if_pos isLiteral, Option.map_some, toNat_literalId numberable isLiteral, place_eq,
          Option.map_some]
  · rw [if_neg isLiteral, List.idxOf?_eq_none_iff.mpr isLiteral, Option.map_none,
      Option.map_none]

/-- Of `ab`, `b` and `ab` again, the input `ab` has the first id.  A literal with the end
marker behind it is not accepted, nor is the empty input. -/
theorem acceptsAnchored_compileLiterals_repeat :
    ∃ table, compileLiterals { CompileOptions.default with anchored := true }
        [[97, 98], [98], [97, 98]] = .ok table ∧
      (table.acceptsAnchored [97, 98]).map UInt8.toNat = some 1 ∧
      (table.acceptsAnchored [98]).map UInt8.toNat = some 2 ∧
      (table.acceptsAnchored [98, 35]).map UInt8.toNat = none ∧
      (table.acceptsAnchored []).map UInt8.toNat = none := by
  have numberable : Numberable [[97, 98], [98], [97, 98]] := ⟨by decide, by decide⟩
  obtain ⟨table, compiled⟩ := @exists_anchored_compileLiterals_eq_ok _
    { CompileOptions.default with anchored := true } rfl numberable
    (show ∀ literal ∈ [[97, 98], [98], [97, 98]], endMarker ∉ literal by decide)
    (by
      intro set literals_eq
      rw [ofSet, literals_eq]
      decide)
  have accepts := acceptsAnchored_compileLiterals compiled rfl
  exact ⟨table, compiled, accepts [97, 98], accepts [98], accepts [98, 35], accepts []⟩

end ByteSignature
