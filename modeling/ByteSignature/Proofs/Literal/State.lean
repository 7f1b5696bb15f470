import ByteSignature.Proofs.Literal.Limit
import ByteSignature.Proofs.Scan.Interchange

/-!
# Where a search is

A search for literals that starts over where no entry leads on, and never stops, is at any time
in the node of the trie for the longest suffix of what was read that begins a literal.  The
flag on every entry tells the longest literal that the string of the node ends with to which
the entry leads.
-/

namespace ByteSignature

open Trie

variable {trie : Trie} {words literals : List (List UInt8)} {table : Table}

/-! ## Nodes of strings -/

/-- The node that some bytes lead to from another, along children. -/
def Trie.descend? (trie : Trie) : Nat → List UInt8 → Option Nat
  | id, [] => some id
  | id, symbol :: rest =>
      (trie.child? id symbol).bind fun child => trie.descend? child rest

/-- The node of a string. -/
def Trie.nodeOf? (trie : Trie) (word : List UInt8) : Option Nat :=
  trie.descend? root word

theorem Trie.Spells.descend?_eq_some_iff (spells : Spells trie words) {id target : Nat}
    {word rest : List UInt8} (placed : words[id]? = some word) :
    trie.descend? id rest = some target ↔ words[target]? = some (word ++ rest) := by
  induction rest generalizing id word with
  | nil =>
      rw [List.append_nil, descend?, Option.some.injEq]
      constructor
      · rintro rfl
        exact placed
      · exact index_eq_of_getElem? spells.nodup placed
  | cons symbol rest ih =>
      rw [descend?, Option.bind_eq_some_iff, List.append_cons]
      constructor
      · rintro ⟨child, found, below⟩
        exact (ih ((spells.child?_eq_some_iff placed).mp found)).mp below
      · intro targetPlaced
        have childMem : word ++ [symbol] ∈ words :=
          spells.prefixClosed _ (List.mem_of_getElem? targetPlaced) _ (List.prefix_append _ rest)
        obtain ⟨child, childPlaced⟩ := List.mem_iff_getElem?.mp childMem
        exact ⟨child, (spells.child?_eq_some_iff placed).mpr childPlaced,
          (ih childPlaced).mpr targetPlaced⟩

/-- The listed words are the strings of the nodes. -/
theorem Trie.Spells.nodeOf?_eq_some_iff (spells : Spells trie words) {word : List UInt8}
    {id : Nat} : trie.nodeOf? word = some id ↔ words[id]? = some word :=
  spells.descend?_eq_some_iff spells.root

/-! ## Longest suffixes -/

/-- The word is the longest suffix of the text that begins a literal. -/
structure LongestSuffix (literals : List (List UInt8)) (text word : List UInt8) : Prop where
  suffix : word <:+ text
  begins : ∃ literal ∈ literals, word <+: literal
  longest : ∀ other, other <:+ text → (∃ literal ∈ literals, other <+: literal) →
    other.length ≤ word.length

theorem LongestSuffix.unique {text word other : List UInt8}
    (isLongest : LongestSuffix literals text word)
    (otherLongest : LongestSuffix literals text other) : word = other := by
  have sameLength : word.length = other.length :=
    Nat.le_antisymm (otherLongest.longest word isLongest.suffix isLongest.begins)
      (isLongest.longest other otherLongest.suffix otherLongest.begins)
  exact (List.suffix_of_suffix_length_le isLongest.suffix otherLongest.suffix
    sameLength.le).eq_of_length sameLength

/-- The flag tells the longest literal that the word ends with, by its first place in the list
counted from one; it is zero when the word ends with none. -/
structure Flags (literals : List (List UInt8)) (word : List UInt8) (flag : UInt8) : Prop where
  eq_zero_iff : flag = 0 ↔ ∀ literal ∈ literals, ¬ literal <:+ word
  longest : flag ≠ 0 → ∃ literal ∈ literals, literal <:+ word ∧
    (∀ other ∈ literals, other <:+ word → other.length ≤ literal.length) ∧
    flag.toNat = literals.idxOf literal + 1

theorem flags_suffixId (numberable : Numberable literals) (word : List UInt8) :
    Flags literals word (suffixId literals word) where
  eq_zero_iff := suffixId_eq_zero_iff numberable word
  longest := exists_literal_of_suffixId_ne_zero numberable

theorem Trie.Holds.longestSuffix (holds : Holds trie words literals) (nonempty : literals ≠ [])
    (text : List UInt8) : LongestSuffix literals text (suffixIn words text) := by
  have mem_iff (word : List UInt8) :
      word ∈ words ↔ ∃ literal ∈ literals, word <+: literal := by
    rw [holds.mem_iff]
    apply or_iff_right_of_imp
    rintro rfl
    obtain ⟨literal, literalMem⟩ := List.exists_mem_of_ne_nil literals nonempty
    exact ⟨literal, literalMem, List.nil_prefix⟩
  constructor
  · exact suffixIn_suffix words text
  · exact (mem_iff _).mp (suffixIn_mem holds.spells.nil_mem text)
  · intro other suffix begins
    exact (suffix_suffixIn ((mem_iff other).mpr begins) suffix).length_le

/-! ## States and entries -/

/-- A byte leads from the node of a word to the node of the longest suffix of the word with the
byte behind it. -/
theorem Searches.exists_restartStep_eq (searches : Searches table words literals)
    (spells : Spells trie words) {id : Nat} {word : List UInt8} (placed : words[id]? = some word)
    (symbol : UInt8) : ∃ target : Nat, words[target]? = some (suffixIn words (word ++ [symbol])) ∧
      table.restartStep id.toUInt16 symbol = target.toUInt16 := by
  rw [Table.restartStep]
  cases found : table.lookup id.toUInt16 symbol with
  | none =>
      rw [searches.missing placed found]
      exact ⟨root, spells.root, rfl⟩
  | some transition =>
      obtain ⟨target, targetPlaced, rfl⟩ := searches.found placed found
      exact ⟨target, targetPlaced, rfl⟩

/-- Some bytes lead from the start to the node of their longest suffix. -/
theorem Searches.exists_foldl_restartStep_eq (searches : Searches table words literals)
    (spells : Spells trie words) (text : List UInt8) :
    ∃ id : Nat, words[id]? = some (suffixIn words text) ∧
      text.foldl table.restartStep 0 = id.toUInt16 := by
  induction text using List.reverseRecOn with
  | nil => exact ⟨root, spells.root, rfl⟩
  | append_singleton text symbol ih =>
      obtain ⟨id, placed, state_eq⟩ := ih
      obtain ⟨target, targetPlaced, next_eq⟩ :=
        searches.exists_restartStep_eq spells placed symbol
      rw [← suffixIn_append_singleton spells.prefixClosed] at targetPlaced
      refine ⟨target, targetPlaced, ?_⟩
      rw [List.foldl_append, state_eq]
      exact next_eq

/-- Every entry leads to a node and is flagged for its word. -/
theorem exists_placed_of_mem_entries (holds : Holds trie words literals)
    (numberable : Numberable literals) (fits : trie.size ≤ tableStateSpace)
    (made : Table.ofEntries (trie.order.flatMap (LiteralSet.searchEntries trie.links)) = .ok table)
    {entry : Table.Entry} (entryMem : entry ∈ table.entries) :
    ∃ word, words[entry.next.toNat]? = some word ∧ entry.accept = suffixId literals word := by
  have listed := (Table.ofEntries_eq_ok_iff.mp made).mem_iff.mpr entryMem
  rcases List.mem_flatMap.mp listed with ⟨id, idMem, isEntry⟩
  rcases List.mem_map.mp isEntry with ⟨⟨symbol, target⟩, moveMem, rfl⟩
  obtain ⟨word, placed⟩ := holds.spells.exists_word (holds.spells.mem_order_iff.mp idMem)
  have advances := holds.advances numberable placed
  have targetPlaced := ((advances.lookup_iff symbol target).mp
    (advances.ascending.lookup_eq_some_iff.mpr moveMem)).2
  refine ⟨_, ?_, holds.outputOf_eq numberable targetPlaced⟩
  rw [toNat_toUInt16 (Nat.lt_of_lt_of_le (holds.spells.lt_size targetPlaced) fits)]
  exact targetPlaced

/-- Literals that fit have a table for searching.  Reading any bytes with it, moving where an
entry leads and starting over where none does, ends in the node for the longest suffix of the
bytes that begins a literal.  Every entry leads to a node, and its flag tells the longest
literal that the string of that node ends with. -/
theorem search_state {options : CompileOptions} (unanchored : options.anchored = false)
    (compilable : Compilable options literals) (nonempty : literals ≠ []) :
    ∃ set table, LiteralSet.ofList literals = .ok set ∧
      compileLiterals options literals = .ok table ∧
      (∀ text, ∃ word, LongestSuffix literals text word ∧
        (ofSet set).nodeOf? word = some (text.foldl table.restartStep 0).toNat) ∧
      ∀ entry ∈ table.entries, ∃ word,
        (∀ other, (ofSet set).nodeOf? other = some entry.next.toNat ↔ other = word) ∧
          Flags literals word entry.accept := by
  obtain ⟨set, isSet⟩ := LiteralSet.exists_ofList_eq_ok ⟨compilable.ne_nil, compilable.length_le⟩
  obtain rfl := LiteralSet.toList_of_ofList isSet
  obtain ⟨table, compiled⟩ :=
    (compileLiterals_succeedsWhen options set.toList).exists_eq_ok_iff.mpr compilable
  obtain ⟨words, holds⟩ := exists_holds_ofSet set
  have searched := compiled
  rw [compileLiterals_eq_of_ofList isSet, LiteralSet.compile, unanchored] at searched
  obtain ⟨size_le, made⟩ := LiteralSet.searchTable_eq_ok_iff.mp searched
  have fits := Nat.le_trans size_le options.dfaLimit_le
  have numberable := set.numberable
  have searches := searches_of_ofEntries holds numberable fits made
  refine ⟨set, table, isSet, compiled, ?_, ?_⟩
  · intro text
    obtain ⟨id, placed, state_eq⟩ := searches.exists_foldl_restartStep_eq holds.spells text
    refine ⟨_, holds.longestSuffix nonempty text, ?_⟩
    rw [state_eq, toNat_toUInt16 (Nat.lt_of_lt_of_le (holds.spells.lt_size placed) fits)]
    exact holds.spells.nodeOf?_eq_some_iff.mpr placed
  · intro entry entryMem
    obtain ⟨word, placed, accept_eq⟩ :=
      exists_placed_of_mem_entries holds numberable fits made entryMem
    refine ⟨word, ?_, accept_eq ▸ flags_suffixId numberable word⟩
    intro other
    rw [holds.spells.nodeOf?_eq_some_iff, placed, Option.some.injEq, eq_comm]

/-- The literals `he`, `she` and `hers`. -/
def pronouns : List (List UInt8) :=
  [[104, 101], [115, 104, 101], [104, 101, 114, 115]]

/-- A search for the pronouns that has read `ushe` is in the node of `she`, and the entries that
lead there are flagged with the second of them, not with the first. -/
theorem search_state_pronouns :
    ∃ set table, LiteralSet.ofList pronouns = .ok set ∧
      compileLiterals .default pronouns = .ok table ∧
      (ofSet set).nodeOf? [115, 104, 101] =
        some ([117, 115, 104, 101].foldl table.restartStep 0).toNat ∧
      ∀ entry ∈ table.entries,
        entry.next.toNat = ([117, 115, 104, 101].foldl table.restartStep 0).toNat →
          entry.accept.toNat = 2 := by
  have compilable : Compilable .default pronouns := by
    constructor
    · decide
    · decide
    · intro anchored
      cases anchored
    · decide
  obtain ⟨set, table, isSet, compiled, reached, flagged⟩ :=
    search_state rfl compilable (List.cons_ne_nil _ _)
  have longest : LongestSuffix pronouns [117, 115, 104, 101] [115, 104, 101] := by
    constructor
    · decide
    · decide
    · intro other suffix
      revert other
      simp only [← List.mem_tails]
      decide
  obtain ⟨word, wordLongest, atNode⟩ := reached [117, 115, 104, 101]
  obtain rfl := wordLongest.unique longest
  refine ⟨set, table, isSet, compiled, atNode, ?_⟩
  intro entry entryMem next_eq
  obtain ⟨entered, only, flags⟩ := flagged entry entryMem
  obtain rfl := (only _).mp (next_eq ▸ atNode)
  have nonzero : entry.accept ≠ 0 := by
    rw [Ne, flags.eq_zero_iff]
    decide
  obtain ⟨literal, literalMem, suffix, most, accept_eq⟩ := flags.longest nonzero
  have long := most [115, 104, 101] (by decide) (by decide)
  have isSecond : ∀ literal ∈ pronouns, literal <:+ [115, 104, 101] → 3 ≤ literal.length →
      pronouns.idxOf literal + 1 = 2 := by
    decide
  exact accept_eq.trans (isSecond literal literalMem suffix long)

end ByteSignature
