import ByteSignature.Proofs.Literal.Anchored
import ByteSignature.Proofs.Literal.Search
import ByteSignature.Proofs.Table.Extent
import Mathlib.Data.Finset.Card

/-!
# When literals have a table

A table of literals has the root, one state for each prefix of a literal that is not empty,
and, for whole inputs, the state behind the end marker.  These are counted before the entries
are made, and the entries then use exactly these: none leads back to the root, and every
other state is entered.  Since no two entries share a state and a byte, literals are refused
for what they are, or for being too many, and never for the table that they make.
-/

namespace ByteSignature

open Trie

variable {trie : Trie} {words literals : List (List UInt8)} {table : Table}

/-! ## Counting states -/

/-- The prefixes of some literals, other than the empty one. -/
def nonemptyPrefixes (literals : List (List UInt8)) : Finset (List UInt8) :=
  (literals.flatMap List.inits).toFinset.erase []

theorem mem_nonemptyPrefixes_iff {word : List UInt8} :
    word ∈ nonemptyPrefixes literals ↔ word ≠ [] ∧ ∃ literal ∈ literals, word <+: literal := by
  simp [nonemptyPrefixes]

/-- The states that a table of some literals has: the start, one for each nonempty prefix, and
for whole inputs one more behind the end marker. -/
def statesNeeded (anchored : Bool) (literals : List (List UInt8)) : Nat :=
  1 + (nonemptyPrefixes literals).card + if anchored then 1 else 0

theorem Trie.Holds.nonemptyPrefixes_eq (holds : Holds trie words literals) :
    nonemptyPrefixes literals = words.toFinset.erase [] := by
  ext word
  rw [mem_nonemptyPrefixes_iff, Finset.mem_erase, List.mem_toFinset, holds.mem_iff]
  tauto

/-- A trie has the root and a node for each nonempty prefix. -/
theorem Trie.Holds.size_eq (holds : Holds trie words literals) :
    trie.size = statesNeeded false literals := by
  have rootMem : [] ∈ words.toFinset := List.mem_toFinset.mpr holds.spells.nil_mem
  rw [statesNeeded, holds.nonemptyPrefixes_eq, Nat.add_comm 1,
    Finset.card_erase_add_one rootMem, List.toFinset_card_of_nodup holds.spells.nodup,
    holds.spells.length_eq]
  rfl

theorem Trie.Holds.size_add_one_eq (holds : Holds trie words literals) :
    trie.size + 1 = statesNeeded true literals := by
  rw [holds.size_eq]
  rfl

/-! ## Where entries lead -/

/-- Some entries lead from states below a count to such states other than the start, and to
each of them. -/
structure Joins (entries : List Table.Entry) (count : Nat) : Prop where
  numbered : ∀ entry ∈ entries, ∃ source target : Nat, source < count ∧ target < count ∧
    target ≠ root ∧ entry.state = source.toUInt16 ∧ entry.next = target.toUInt16
  entered : ∀ target < count, target ≠ root → ∃ entry ∈ entries, entry.next = target.toUInt16

theorem Joins.spans {entries : List Table.Entry} {count : Nat} (joins : Joins entries count)
    (fits : count ≤ tableStateSpace) : Table.Spans entries count where
  lt entry entryMem := by
    obtain ⟨source, target, sourceLt, targetLt, -, state_eq, next_eq⟩ :=
      joins.numbered entry entryMem
    rw [state_eq, next_eq, toNat_toUInt16 (Nat.lt_of_lt_of_le sourceLt fits),
      toNat_toUInt16 (Nat.lt_of_lt_of_le targetLt fits)]
    exact ⟨sourceLt, targetLt⟩
  entered state pos stateLt := by
    obtain ⟨entry, entryMem, next_eq⟩ := joins.entered state stateLt (Nat.ne_of_gt pos)
    refine ⟨entry, entryMem, ?_⟩
    rw [next_eq, toNat_toUInt16 (Nat.lt_of_lt_of_le stateLt fits)]

/-- No entry leads back to the start. -/
theorem Joins.next_ne {entries : List Table.Entry} {count : Nat} (joins : Joins entries count)
    (fits : count ≤ tableStateSpace) : ∀ entry ∈ entries, entry.next ≠ 0 := by
  intro entry entryMem isStart
  obtain ⟨_, target, _, targetLt, notRoot, -, next_eq⟩ := joins.numbered entry entryMem
  have toNat_eq := congrArg UInt16.toNat (next_eq.symm.trans isStart)
  rw [toNat_toUInt16 (Nat.lt_of_lt_of_le targetLt fits)] at toNat_eq
  exact notRoot toNat_eq

namespace LiteralSet

/-- The entries for searching lead along the moves, of which none leads to the root and one
leads to each child. -/
theorem joins_searchEntries (holds : Holds trie words literals)
    (numberable : Numberable literals) :
    Joins (trie.order.flatMap (searchEntries trie.links)) trie.size where
  numbered entry entryMem := by
    rcases List.mem_flatMap.mp entryMem with ⟨id, idMem, entryMem⟩
    rcases List.mem_map.mp entryMem with ⟨⟨symbol, target⟩, moveMem, rfl⟩
    have idLt := holds.spells.mem_order_iff.mp idMem
    obtain ⟨word, placed⟩ := holds.spells.exists_word idLt
    have advances := holds.advances numberable placed
    obtain ⟨notRoot, targetPlaced⟩ := (advances.lookup_iff symbol target).mp
      (advances.ascending.lookup_eq_some_iff.mpr moveMem)
    exact ⟨id, target, idLt, holds.spells.lt_size targetPlaced, notRoot, rfl, rfl⟩
  entered target targetLt notRoot := by
    obtain ⟨parent, before, symbol, parentPlaced, placed⟩ :=
      holds.spells.exists_placed_parent targetLt notRoot
    have advances := holds.advances numberable parentPlaced
    have moved : (trie.links.movesOf parent).lookup symbol = some target := by
      rw [advances.lookup_iff, suffixIn_of_mem (List.mem_of_getElem? placed)]
      exact ⟨notRoot, placed⟩
    have parentMem := holds.spells.mem_order_iff.mpr (holds.spells.lt_size parentPlaced)
    exact ⟨_, List.mem_flatMap.mpr ⟨parent, parentMem, List.mem_map_of_mem
      (advances.ascending.lookup_eq_some_iff.mp moved)⟩, rfl⟩

/-- The entries for whole inputs lead to the children, and behind a literal, of which there
must be one, to the further state. -/
theorem joins_anchoredEntries (holds : Holds trie words literals)
    (numberable : Numberable literals) (nonempty : literals ≠ []) :
    Joins ((List.range trie.size).flatMap (anchoredEntries trie)) (trie.size + 1) where
  numbered entry entryMem := by
    rcases List.mem_flatMap.mp entryMem with ⟨id, idMem, entryMem⟩
    have idLt := List.mem_range.mp idMem
    obtain ⟨word, placed⟩ := holds.spells.exists_word idLt
    rcases mem_anchoredEntries_iff.mp entryMem with ⟨symbol, child, childMem, rfl⟩ | ⟨_, rfl⟩
    · have childPlaced := (holds.spells.child_iff placed symbol child).mp childMem
      exact ⟨id, child, Nat.lt_succ_of_lt idLt,
        Nat.lt_succ_of_lt (holds.spells.lt_size childPlaced),
        holds.spells.ne_root_of_placed childPlaced, rfl, rfl⟩
    · have rootLt := holds.spells.lt_size holds.spells.root
      exact ⟨id, trie.size, Nat.lt_succ_of_lt idLt, Nat.lt_succ_self _, Nat.ne_of_gt rootLt,
        rfl, rfl⟩
  entered target targetLt notRoot := by
    have entry_of {id : Nat} {entry : Table.Entry} (idLt : id < trie.size)
        (entryMem : entry ∈ anchoredEntries trie id) :
        entry ∈ (List.range trie.size).flatMap (anchoredEntries trie) :=
      List.mem_flatMap.mpr ⟨id, List.mem_range.mpr idLt, entryMem⟩
    rcases Nat.lt_succ_iff_lt_or_eq.mp targetLt with isNode | rfl
    · obtain ⟨parent, before, symbol, parentPlaced, placed⟩ :=
        holds.spells.exists_placed_parent isNode notRoot
      have childMem := (holds.spells.child_iff parentPlaced symbol target).mpr placed
      exact ⟨_, entry_of (holds.spells.lt_size parentPlaced)
        (mem_anchoredEntries_iff.mpr (.inl ⟨symbol, target, childMem, rfl⟩)), rfl⟩
    · obtain ⟨literal, literalMem⟩ := List.exists_mem_of_ne_nil literals nonempty
      obtain ⟨id, placed⟩ := List.mem_iff_getElem?.mp (holds.mem_of_mem literal literalMem)
      have marked : (trie.node id).output ≠ 0 := by
        rw [holds.output_eq placed, ne_eq, literalId_eq_zero_iff numberable]
        exact not_not_intro literalMem
      exact ⟨_, entry_of (holds.spells.lt_size placed)
        (mem_anchoredEntries_iff.mpr (.inr ⟨marked, rfl⟩)), rfl⟩

end LiteralSet

/-! ## What is refused -/

/-- There is a result exactly when something fits, and the error of what does not fit is not
that two entries share a state and a byte. -/
structure SucceedsWhen {α : Type} (fits : Prop) (result : Except CompileError α) : Prop where
  exists_eq_ok_iff : (∃ value, result = .ok value) ↔ fits
  ne_duplicate : ∀ second, result ≠ .error (.duplicate second)

theorem SucceedsWhen.of_ok {α : Type} {fits : Prop} (isFit : fits) (value : α) :
    SucceedsWhen fits (.ok value) where
  exists_eq_ok_iff := iff_of_true ⟨value, rfl⟩ isFit
  ne_duplicate second refused := by cases refused

theorem SucceedsWhen.of_error {α : Type} {fits : Prop} (unfit : ¬ fits) {error : CompileError}
    (ne : ∀ second, error ≠ .duplicate second) :
    SucceedsWhen fits (.error error : Except CompileError α) where
  exists_eq_ok_iff := by
    apply iff_of_false _ unfit
    rintro ⟨value, made⟩
    cases made
  ne_duplicate second refused := ne second (Except.error.inj refused)

namespace LiteralSet

theorem push_ne_duplicate (set : LiteralSet) (literal : List UInt8) (second : Table.Duplicate) :
    set.push literal ≠ .error (.duplicate second) := by
  intro refused
  rw [push] at refused
  split at refused
  · cases refused
  · split at refused
    · cases refused
    · cases refused

theorem pushMany_ne_duplicate (set : LiteralSet) (literals : List (List UInt8))
    (second : Table.Duplicate) : set.pushMany literals ≠ .error (.duplicate second) := by
  induction literals generalizing set with
  | nil =>
      intro refused
      cases refused
  | cons literal literals ih =>
      rw [pushMany]
      cases pushed : set.push literal with
      | error error =>
          intro refused
          cases refused
          exact push_ne_duplicate set literal second pushed
      | ok next => exact ih next

/-- Literals make a set exactly when they can be numbered. -/
theorem ofList_succeedsWhen (literals : List (List UInt8)) :
    SucceedsWhen (Numberable literals) (ofList literals) where
  exists_eq_ok_iff := by
    constructor
    · rintro ⟨set, made⟩
      rw [← toList_of_ofList made]
      exact set.numberable
    · exact exists_ofList_eq_ok
  ne_duplicate := pushMany_ne_duplicate empty literals

/-- Entries that differ in state or byte make a table exactly when enough states are
allowed. -/
theorem checkedTable_succeedsWhen {needed limit : Nat} {entries : List Table.Entry}
    (distinct : needed ≤ limit → (entries.map Table.Entry.key).Nodup) :
    SucceedsWhen (needed ≤ limit)
      (match checkStates needed limit with
        | .error error => Except.error error
        | .ok () => tableOf entries) := by
  by_cases fits : needed ≤ limit
  · rcases Table.exists_ofEntries_eq_ok_iff.mpr (distinct fits) with ⟨table, made⟩
    rw [checkStates, if_neg (Nat.not_lt.mpr fits)]
    simp only [tableOf, made]
    exact .of_ok fits table
  · rw [checkStates, if_pos (Nat.lt_of_not_le fits)]
    apply SucceedsWhen.of_error fits
    intro second isDuplicate
    cases isDuplicate

theorem searchTable_succeedsWhen (set : LiteralSet) {limit : Nat}
    (limit_le : limit ≤ tableStateSpace) :
    SucceedsWhen (statesNeeded false set.toList ≤ limit) (set.searchTable limit) := by
  obtain ⟨words, holds⟩ := exists_holds_ofSet set
  rw [← holds.size_eq]
  apply checkedTable_succeedsWhen
  intro fits
  exact nodup_searchEntries holds set.numberable (Nat.le_trans fits limit_le)

theorem anchoredTable_succeedsWhen (set : LiteralSet) {limit : Nat}
    (limit_le : limit ≤ tableStateSpace) :
    SucceedsWhen (MarkerFree set.toList ∧ statesNeeded true set.toList ≤ limit)
      (set.anchoredTable limit) := by
  obtain ⟨words, holds⟩ := exists_holds_ofSet set
  rw [← holds.size_add_one_eq, ← markerIndex?_eq_none_iff, anchoredTable]
  cases marked : set.markerIndex? with
  | some index =>
      apply SucceedsWhen.of_error
      · rintro ⟨unmarked, -⟩
        cases unmarked
      · intro second isDuplicate
        cases isDuplicate
  | none =>
      simp only [true_and]
      apply checkedTable_succeedsWhen
      intro fits
      exact nodup_anchoredEntries holds (markerIndex?_eq_none_iff.mp marked)
        (Nat.le_trans (Nat.le_of_succ_le fits) limit_le)

/-- A set has a table exactly when its literals are free of the marker, where whole inputs
are matched, and the states are within the limit. -/
theorem compile_succeedsWhen (set : LiteralSet) (options : CompileOptions) :
    SucceedsWhen
      ((options.anchored = true → MarkerFree set.toList) ∧
        statesNeeded options.anchored set.toList ≤ options.dfaLimit)
      (set.compile options) := by
  rw [compile]
  cases options.anchored with
  | true =>
      simp only [true_imp_iff]
      exact set.anchoredTable_succeedsWhen options.dfaLimit_le
  | false =>
      simp only [Bool.false_eq_true, false_imp_iff, true_and]
      exact set.searchTable_succeedsWhen options.dfaLimit_le

/-- The table of a set with literals is made of entries that join all its states. -/
theorem exists_joins_of_compile {set : LiteralSet} {options : CompileOptions}
    (compiled : set.compile options = .ok table) (nonempty : set.toList ≠ []) :
    ∃ entries, Table.ofEntries entries = .ok table ∧
      Joins entries (statesNeeded options.anchored set.toList) := by
  obtain ⟨words, holds⟩ := exists_holds_ofSet set
  rw [compile] at compiled
  cases anchored : options.anchored with
  | true =>
      rw [anchored] at compiled
      obtain ⟨-, -, made⟩ := anchoredTable_eq_ok_iff.mp compiled
      rw [← holds.size_add_one_eq]
      exact ⟨_, made, joins_anchoredEntries holds set.numberable nonempty⟩
  | false =>
      rw [anchored] at compiled
      obtain ⟨-, made⟩ := searchTable_eq_ok_iff.mp compiled
      rw [← holds.size_eq]
      exact ⟨_, made, joins_searchEntries holds set.numberable⟩

end LiteralSet

/-! ## Tables of literals -/

/-- Everything that literals must be to have a table. -/
structure Compilable (options : CompileOptions) (literals : List (List UInt8)) : Prop where
  length_le : literals.length ≤ 255
  ne_nil : ∀ literal ∈ literals, literal ≠ []
  markerFree : options.anchored = true → ∀ literal ∈ literals, endMarker ∉ literal
  statesNeeded_le : statesNeeded options.anchored literals ≤ options.dfaLimit

theorem compileLiterals_succeedsWhen (options : CompileOptions) (literals : List (List UInt8)) :
    SucceedsWhen (Compilable options literals) (compileLiterals options literals) := by
  have numbered := LiteralSet.ofList_succeedsWhen literals
  rw [compileLiterals]
  cases made : LiteralSet.ofList literals with
  | error error =>
      rw [made] at numbered
      apply SucceedsWhen.of_error
      · intro compilable
        rcases numbered.exists_eq_ok_iff.mpr ⟨compilable.ne_nil, compilable.length_le⟩ with
          ⟨set, isOk⟩
        cases isOk
      · rintro second rfl
        exact numbered.ne_duplicate second rfl
  | ok set =>
      have numberable := set.numberable
      have compiles := set.compile_succeedsWhen options
      rw [LiteralSet.toList_of_ofList made] at numberable compiles
      refine ⟨compiles.exists_eq_ok_iff.trans ?_, compiles.ne_duplicate⟩
      constructor
      · rintro ⟨markerFree, needed_le⟩
        exact ⟨numberable.length_le, numberable.ne_nil, markerFree, needed_le⟩
      · intro compilable
        exact ⟨compilable.markerFree, compilable.statesNeeded_le⟩

/-- Literals have a table exactly when there are at most 255, none is empty, none contains the
end marker that whole inputs end with, and the root, the nonempty prefixes and the state
behind the marker are within the limit.  It is never refused for two entries that share a
state and a byte.  The table of some literals has that many states, nothing leads back to the
start, and something leads to each other state. -/
theorem compileLiterals_exact (options : CompileOptions) (literals : List (List UInt8)) :
    ((∃ table, compileLiterals options literals = .ok table) ↔ Compilable options literals) ∧
      (∀ second, compileLiterals options literals ≠ .error (.duplicate second)) ∧
      ∀ table, compileLiterals options literals = .ok table → literals ≠ [] →
        table.stateCount = statesNeeded options.anchored literals ∧
          (∀ entry ∈ table.entries, entry.next ≠ 0) ∧
          ∀ state, 0 < state → state < table.stateCount →
            ∃ entry ∈ table.entries, entry.next.toNat = state := by
  have succeeds := compileLiterals_succeedsWhen options literals
  refine ⟨succeeds.exists_eq_ok_iff, succeeds.ne_duplicate, ?_⟩
  intro table compiled nonempty
  have compilable := succeeds.exists_eq_ok_iff.mp ⟨table, compiled⟩
  have fits := Nat.le_trans compilable.statesNeeded_le options.dfaLimit_le
  obtain ⟨set, rfl, setCompiled⟩ := exists_compile_of_compileLiterals compiled
  obtain ⟨entries, made, joins⟩ := LiteralSet.exists_joins_of_compile setCompiled nonempty
  have spans := (joins.spans fits).of_ofEntries made
  have count_eq := spans.stateCount_eq (Nat.lt_of_lt_of_le Nat.one_pos
    (Nat.le_trans (Nat.le_add_right _ _) (Nat.le_add_right _ _)))
  refine ⟨count_eq, ?_, ?_⟩
  · intro entry entryMem
    exact joins.next_ne fits entry ((Table.ofEntries_eq_ok_iff.mp made).mem_iff.mpr entryMem)
  · rw [count_eq]
    exact spans.entered

/-- Of `he`, `she` and `he` again, the nonempty prefixes are `h`, `he`, `s`, `sh` and `she`.
With the root these need six states, and for whole inputs seven. -/
theorem compileLiterals_exact_he_she :
    statesNeeded false [[104, 101], [115, 104, 101], [104, 101]] = 6 ∧
      (∃ table, compileLiterals (CompileOptions.default.withDfaLimit 6)
          [[104, 101], [115, 104, 101], [104, 101]] = .ok table ∧ table.stateCount = 6 ∧
        ∃ entry ∈ table.entries, entry.next.toNat = 5) ∧
      (¬ ∃ table, compileLiterals (CompileOptions.default.withDfaLimit 5)
        [[104, 101], [115, 104, 101], [104, 101]] = .ok table) ∧
      ¬ ∃ table, compileLiterals { CompileOptions.default.withDfaLimit 6 with anchored := true }
        [[104, 101], [115, 104, 101], [104, 101]] = .ok table := by
  have needed : statesNeeded false [[104, 101], [115, 104, 101], [104, 101]] = 6 := by decide
  obtain ⟨compiles, -, shape⟩ := compileLiterals_exact (CompileOptions.default.withDfaLimit 6)
    [[104, 101], [115, 104, 101], [104, 101]]
  have compilable : Compilable (CompileOptions.default.withDfaLimit 6)
      [[104, 101], [115, 104, 101], [104, 101]] := by
    constructor
    · decide
    · decide
    · intro anchored
      cases anchored
    · exact Nat.le_of_eq needed
  obtain ⟨table, compiled⟩ := compiles.mpr compilable
  obtain ⟨count_eq, -, entered⟩ := shape table compiled (List.cons_ne_nil _ _)
  have six : table.stateCount = 6 := count_eq.trans needed
  refine ⟨needed, ⟨table, compiled, six, ?_⟩, ?_, ?_⟩
  · exact entered 5 (by decide) (by rw [six]; decide)
  · rw [(compileLiterals_exact _ _).1]
    intro tooMany
    exact absurd tooMany.statesNeeded_le (by decide)
  · rw [(compileLiterals_exact _ _).1]
    intro tooMany
    exact absurd tooMany.statesNeeded_le (by decide)

end ByteSignature
