import ByteSignature.Literal.Set
import Mathlib.Data.List.Infix

/-!
# Longest suffixes

For a set of words with all their prefixes, the longest suffix of a text that is one of
them can be kept up to date byte by byte: the text with a byte behind it has the same
longest suffix as the longest suffix of the text with that byte behind it.  The id of the
longest literal that is a suffix can be read off the longest suffix as well.
-/

namespace ByteSignature

/-- The longest suffix of a text that is one of the words. -/
def suffixIn (words : List (List UInt8)) : List UInt8 → List UInt8
  | [] => []
  | byte :: text => if byte :: text ∈ words then byte :: text else suffixIn words text

/-- Every prefix of a word is a word. -/
def PrefixClosed (words : List (List UInt8)) : Prop :=
  ∀ word ∈ words, ∀ before, before <+: word → before ∈ words

variable {words literals : List (List UInt8)}

theorem suffixIn_of_mem {text : List UInt8} (textMem : text ∈ words) :
    suffixIn words text = text := by
  cases text with
  | nil => rfl
  | cons byte text => rw [suffixIn, if_pos textMem]

theorem suffixIn_cons_of_notMem {byte : UInt8} {text : List UInt8}
    (notMem : byte :: text ∉ words) : suffixIn words (byte :: text) = suffixIn words text := by
  rw [suffixIn, if_neg notMem]

theorem suffixIn_of_notMem {text : List UInt8} (notMem : text ∉ words) :
    suffixIn words text = suffixIn words text.tail := by
  cases text with
  | nil => rfl
  | cons byte text => exact suffixIn_cons_of_notMem notMem

theorem suffixIn_suffix (words : List (List UInt8)) (text : List UInt8) :
    suffixIn words text <:+ text := by
  induction text with
  | nil => exact List.suffix_refl []
  | cons byte text ih =>
      rw [suffixIn]
      split
      · exact List.suffix_refl _
      · exact ih.trans (List.suffix_cons byte text)

theorem length_suffixIn_le (words : List (List UInt8)) (text : List UInt8) :
    (suffixIn words text).length ≤ text.length :=
  (suffixIn_suffix words text).length_le

theorem suffixIn_mem (nilMem : [] ∈ words) (text : List UInt8) : suffixIn words text ∈ words := by
  induction text with
  | nil => exact nilMem
  | cons byte text ih =>
      rw [suffixIn]
      split
      · assumption
      · exact ih

/-- No suffix that is a word is longer. -/
theorem suffix_suffixIn {word text : List UInt8} (wordMem : word ∈ words)
    (suffix : word <:+ text) : word <:+ suffixIn words text := by
  induction text with
  | nil =>
      rw [List.suffix_nil.mp suffix]
      exact List.suffix_refl []
  | cons byte text ih =>
      rw [suffixIn]
      split
      · exact suffix
      · rename_i notMem
        rcases List.suffix_cons_iff.mp suffix with rfl | shorter
        · exact absurd wordMem notMem
        · exact ih shorter

/-- What is known of a text is enough to read on. -/
theorem suffixIn_append_singleton (closed : PrefixClosed words) (text : List UInt8)
    (byte : UInt8) :
    suffixIn words (text ++ [byte]) = suffixIn words (suffixIn words text ++ [byte]) := by
  induction text with
  | nil => rfl
  | cons first text ih =>
      by_cases isWord : first :: text ∈ words
      · rw [suffixIn_of_mem isWord]
      · have notLonger : first :: (text ++ [byte]) ∉ words := fun longer =>
          isWord (closed _ longer _ ⟨[byte], rfl⟩)
        rw [suffixIn_cons_of_notMem isWord, List.cons_append, suffixIn_cons_of_notMem notLonger]
        exact ih

/-! ## Literals -/

/-- The id of a literal is its place in the list, counted from one; other words have
none. -/
def literalId (literals : List (List UInt8)) (word : List UInt8) : UInt8 :=
  if word ∈ literals then (literals.idxOf word + 1).toUInt8 else 0

/-- The id of the longest literal that is a suffix of a text. -/
def suffixId (literals : List (List UInt8)) : List UInt8 → UInt8
  | [] => 0
  | byte :: text =>
      if byte :: text ∈ literals then literalId literals (byte :: text)
      else suffixId literals text

/-- The literals fit an automaton: they have bytes, and there are few enough for ids. -/
structure Numberable (literals : List (List UInt8)) : Prop where
  ne_nil : ∀ literal ∈ literals, literal ≠ []
  length_le : literals.length ≤ 255

theorem LiteralSet.numberable (set : LiteralSet) : Numberable set.toList where
  ne_nil literal literalMem := set.ne_nil literal (Array.mem_toList_iff.mp literalMem)
  length_le := Array.length_toList ▸ set.size_le

theorem Numberable.of_append {first second : List (List UInt8)}
    (numberable : Numberable (first ++ second)) : Numberable first := by
  constructor
  · exact fun literal literalMem => numberable.ne_nil literal (List.mem_append_left _ literalMem)
  · exact Nat.le_trans (List.prefix_append first second).length_le numberable.length_le

theorem toNat_literalId (numberable : Numberable literals) {word : List UInt8}
    (wordMem : word ∈ literals) : (literalId literals word).toNat = literals.idxOf word + 1 := by
  have place := List.idxOf_lt_length_of_mem wordMem
  have bound := numberable.length_le
  rw [literalId, if_pos wordMem]
  have small : literals.idxOf word + 1 < 256 := by omega
  simpa using small

theorem literalId_eq_zero_iff (numberable : Numberable literals) {word : List UInt8} :
    literalId literals word = 0 ↔ word ∉ literals := by
  by_cases wordMem : word ∈ literals
  · have positive := toNat_literalId numberable wordMem
    constructor
    · intro zero
      rw [zero] at positive
      cases positive
    · intro notMem
      exact absurd wordMem notMem
  · rw [literalId, if_neg wordMem]
    exact iff_of_true rfl wordMem

/-- A literal behind others has their ids unchanged, and a new id unless it repeats one. -/
theorem literalId_append_singleton (literal word : List UInt8) :
    literalId (literals ++ [literal]) word =
      if word ∈ literals then literalId literals word
      else if word = literal then (literals.length + 1).toUInt8 else 0 := by
  by_cases wordMem : word ∈ literals
  · rw [literalId, literalId, if_pos wordMem, if_pos wordMem,
      if_pos (List.mem_append_left _ wordMem), List.idxOf_append_of_mem wordMem]
  · rw [if_neg wordMem, literalId, List.idxOf_append_of_notMem wordMem]
    by_cases same : word = literal
    · simp [same]
    · simp [wordMem, same]

/-- Where words begin literals, the longest suffix that is a word has all the suffixes that
are literals. -/
theorem suffixId_suffixIn (literalMem : ∀ literal ∈ literals, literal ∈ words)
    (text : List UInt8) : suffixId literals (suffixIn words text) = suffixId literals text := by
  induction text with
  | nil => rfl
  | cons byte text ih =>
      by_cases isWord : byte :: text ∈ words
      · rw [suffixIn_of_mem isWord]
      · rw [suffixIn_cons_of_notMem isWord, ih, suffixId,
          if_neg fun isLiteral => isWord (literalMem _ isLiteral)]

/-- A word lends the id of its own longest proper suffix where it is no literal. -/
theorem suffixId_eq (numberable : Numberable literals) (text : List UInt8) :
    suffixId literals text =
      if literalId literals text = 0 then suffixId literals text.tail
      else literalId literals text := by
  cases text with
  | nil =>
      have zero : literalId literals [] = 0 :=
        (literalId_eq_zero_iff numberable).mpr fun nilMem => numberable.ne_nil [] nilMem rfl
      simp [suffixId, zero]
  | cons byte text =>
      by_cases isLiteral : byte :: text ∈ literals
      · have nonzero := mt (literalId_eq_zero_iff numberable).mp (not_not_intro isLiteral)
        rw [suffixId, if_pos isLiteral, if_neg nonzero]
      · have zero := (literalId_eq_zero_iff numberable).mpr isLiteral
        rw [suffixId, if_neg isLiteral, if_pos zero, List.tail_cons]

/-- A text without an id ends with no literal. -/
theorem suffixId_eq_zero_iff (numberable : Numberable literals) (text : List UInt8) :
    suffixId literals text = 0 ↔ ∀ literal ∈ literals, ¬ literal <:+ text := by
  induction text with
  | nil =>
      apply iff_of_true rfl
      intro literal literalMem suffix
      exact numberable.ne_nil literal literalMem (List.suffix_nil.mp suffix)
  | cons byte text ih =>
      rw [suffixId]
      by_cases isLiteral : byte :: text ∈ literals
      · rw [if_pos isLiteral]
        apply iff_of_false
        · exact mt (literalId_eq_zero_iff numberable).mp (not_not_intro isLiteral)
        · intro none
          exact none _ isLiteral (List.suffix_refl _)
      · rw [if_neg isLiteral, ih]
        apply forall₂_congr
        intro literal literalMem
        rw [List.suffix_cons_iff]
        constructor
        · rintro notSuffix (rfl | suffix)
          · exact isLiteral literalMem
          · exact notSuffix suffix
        · exact fun neither suffix => neither (Or.inr suffix)

/-- The id of a text is that of the longest literal that it ends with. -/
theorem exists_literal_of_suffixId_ne_zero (numberable : Numberable literals)
    {text : List UInt8} (nonzero : suffixId literals text ≠ 0) :
    ∃ literal ∈ literals, literal <:+ text ∧
      (∀ other ∈ literals, other <:+ text → other.length ≤ literal.length) ∧
      (suffixId literals text).toNat = literals.idxOf literal + 1 := by
  induction text with
  | nil => exact absurd rfl nonzero
  | cons byte text ih =>
      rw [suffixId] at nonzero ⊢
      by_cases isLiteral : byte :: text ∈ literals
      · rw [if_pos isLiteral]
        exact ⟨byte :: text, isLiteral, List.suffix_refl _,
          fun other _ suffix => suffix.length_le, toNat_literalId numberable isLiteral⟩
      · rw [if_neg isLiteral] at nonzero ⊢
        obtain ⟨literal, literalMem, suffix, longest, id⟩ := ih nonzero
        refine ⟨literal, literalMem, suffix.trans (List.suffix_cons byte text), ?_, id⟩
        intro other otherMem otherSuffix
        rcases List.suffix_cons_iff.mp otherSuffix with rfl | shorter
        · exact absurd otherMem isLiteral
        · exact longest other otherMem shorter

end ByteSignature
