import ByteSignature.Proofs.Compile.Meaning
import ByteSignature.Proofs.Literal.Anchored

/-!
# Literals as alternatives of a pattern

A list of literals made of letters and digits can be written as a pattern that joins them
by pipes, each in a group of its own.  An expression joins each further term to everything
before it, so the groups keep the literals apart, and the pattern denotes exactly the
literals.  Where whole inputs are matched, its table accepts what the table of the literals
accepts.
-/

namespace ByteSignature

namespace Pattern

/-! ## The text -/

/-- The bytes of the literal are ASCII letters and digits. -/
def Alphanumeric (literal : List UInt8) : Prop :=
  ∀ byte ∈ literal, (Char.ofUInt8 byte).isAlphanum = true

instance (literal : List UInt8) : Decidable (Alphanumeric literal) :=
  List.decidableBAll _ literal

/-- A literal in a group. -/
def literalGroup (literal : List UInt8) : List Char :=
  '(' :: (literal.map Char.ofUInt8 ++ [')'])

/-- Literals in groups, joined by pipes: `(l1)|(l2)|...|(ln)`. -/
def alternatives (literals : List (List UInt8)) : String :=
  String.ofList (['|'].intercalate (literals.map literalGroup))

theorem intercalate_literalGroup (literal : List UInt8) (literals : List (List UInt8)) :
    ['|'].intercalate ((literal :: literals).map literalGroup) =
      literalGroup literal ++ literals.flatMap fun other => '|' :: literalGroup other := by
  induction literals generalizing literal with
  | nil => simp
  | cons other literals ih =>
      rw [List.map_cons, List.map_cons, List.intercalate_cons_cons, ← List.map_cons, ih,
        List.flatMap_cons]
      simp

/-- No character of the text is blank. -/
theorem visible_alternatives {literals : List (List UInt8)}
    (alphanumeric : ∀ literal ∈ literals, Alphanumeric literal) :
    visible (alternatives literals) = ['|'].intercalate (literals.map literalGroup) := by
  have group : ∀ literal ∈ literals, ∀ character ∈ literalGroup literal,
      isBlank character = false := by
    intro literal literalMem character characterMem
    rw [literalGroup, List.mem_cons, List.mem_append, List.mem_map, List.mem_singleton]
      at characterMem
    rcases characterMem with rfl | ⟨byte, byteMem, rfl⟩ | rfl
    · rfl
    · exact isBlank_of_isAlphanum (alphanumeric literal literalMem byte byteMem)
    · rfl
  rw [visible, alternatives, String.toList_ofList, List.filter_eq_self]
  cases literals with
  | nil => simp
  | cons literal literals =>
      rw [intercalate_literalGroup]
      intro character characterMem
      rw [List.mem_append, List.mem_flatMap] at characterMem
      rcases characterMem with firstMem | ⟨other, otherMem, laterMem⟩
      · simp [group literal List.mem_cons_self character firstMem]
      · rcases List.mem_cons.mp laterMem with rfl | groupMem
        · rfl
        · simp [group other (List.mem_cons_of_mem _ otherMem) character groupMem]

/-! ## The language -/

theorem spells_byte {byte : UInt8} (alphanumeric : (Char.ofUInt8 byte).isAlphanum = true) :
    Spells .term [Char.ofUInt8 byte] (.symbol byte) := by
  have toNat_eq : (Char.ofUInt8 byte).toNat = byte.toNat := UInt8.toNat_toUInt32 byte
  have spells := Spells.symbol alphanumeric
  rw [toNat_eq, Nat.toUInt8_eq, UInt8.ofNat_toNat] at spells
  exact .single spells

theorem singleton_mul_singleton (first second : List UInt8) :
    ({first} : Language UInt8) * {second} = {first ++ second} :=
  Set.image2_singleton

/-- Bytes in a row behind an expression. -/
theorem Spells.exists_append_literal {before : List Char} {left : Pattern}
    (spells : Spells .expression before left) {literal : List UInt8}
    (alphanumeric : Alphanumeric literal) :
    ∃ pattern, Spells .expression (before ++ literal.map Char.ofUInt8) pattern ∧
      pattern.language = left.language * {literal} := by
  induction literal generalizing before left with
  | nil => exact ⟨left, by simpa using spells, (mul_one left.language).symm⟩
  | cons byte literal ih =>
      rw [Alphanumeric, List.forall_mem_cons] at alphanumeric
      have further := Spells.joined .concat spells (spells_byte alphanumeric.1)
      obtain ⟨pattern, spelled, language_eq⟩ := ih further alphanumeric.2
      refine ⟨pattern, by simpa [Join.sign] using spelled, ?_⟩
      rw [language_eq, ← List.singleton_append, ← singleton_mul_singleton, ← mul_assoc]
      rfl

/-- A literal in a group denotes itself. -/
theorem exists_spells_literalGroup {literal : List UInt8} (ne_nil : literal ≠ [])
    (alphanumeric : Alphanumeric literal) :
    ∃ pattern, Spells .term (literalGroup literal) pattern ∧ pattern.language = {literal} := by
  cases literal with
  | nil => exact absurd rfl ne_nil
  | cons byte literal =>
      rw [Alphanumeric, List.forall_mem_cons] at alphanumeric
      obtain ⟨pattern, spelled, language_eq⟩ :=
        (Spells.first (spells_byte alphanumeric.1)).exists_append_literal alphanumeric.2
      refine ⟨pattern, .single (.group spelled), ?_⟩
      rw [language_eq]
      exact singleton_mul_singleton [byte] literal

/-- Groups behind an expression, each with a pipe in front. -/
theorem Spells.exists_append_groups {before : List Char} {left : Pattern}
    (spells : Spells .expression before left) {literals : List (List UInt8)}
    (ne_nil : ∀ literal ∈ literals, literal ≠ [])
    (alphanumeric : ∀ literal ∈ literals, Alphanumeric literal) :
    ∃ pattern, Spells .expression
        (before ++ literals.flatMap fun other => '|' :: literalGroup other) pattern ∧
      ∀ input, input ∈ pattern.language ↔ input ∈ left.language ∨ input ∈ literals := by
  induction literals generalizing before left with
  | nil => exact ⟨left, by simpa using spells, by simp⟩
  | cons literal literals ih =>
      rw [List.forall_mem_cons] at ne_nil alphanumeric
      obtain ⟨operand, spelled, operand_eq⟩ :=
        exists_spells_literalGroup ne_nil.1 alphanumeric.1
      have further := Spells.joined .alternate spells spelled
      obtain ⟨pattern, spelledAll, mem_iff⟩ := ih further ne_nil.2 alphanumeric.2
      refine ⟨pattern, by simpa [Join.sign] using spelledAll, ?_⟩
      intro input
      have literal_iff : input ∈ operand.language ↔ input = literal := by
        rw [operand_eq]
        rfl
      rw [mem_iff, List.mem_cons, ← or_assoc, ← literal_iff]
      rfl

theorem languageOf_eq_of_spells {source : String} {pattern : Pattern}
    (spells : Spells .expression (visible source) pattern) :
    languageOf source = pattern.language :=
  languageOf_eq_of_read (read_eq_ok_iff.mpr ⟨spells, nested_count _⟩)

/-- The alternatives denote the literals. -/
theorem mem_languageOf_alternatives {literals : List (List UInt8)} (nonempty : literals ≠ [])
    (ne_nil : ∀ literal ∈ literals, literal ≠ [])
    (alphanumeric : ∀ literal ∈ literals, Alphanumeric literal) (input : List UInt8) :
    input ∈ languageOf (alternatives literals) ↔ input ∈ literals := by
  cases literals with
  | nil => exact absurd rfl nonempty
  | cons literal literals =>
      have visible_eq := visible_alternatives alphanumeric
      rw [intercalate_literalGroup] at visible_eq
      rw [List.forall_mem_cons] at ne_nil alphanumeric
      obtain ⟨operand, spelled, operand_eq⟩ :=
        exists_spells_literalGroup ne_nil.1 alphanumeric.1
      obtain ⟨pattern, spelledAll, mem_iff⟩ :=
        (Spells.first spelled).exists_append_groups ne_nil.2 alphanumeric.2
      rw [← visible_eq] at spelledAll
      rw [languageOf_eq_of_spells spelledAll, mem_iff, operand_eq, List.mem_cons]
      rfl

end Pattern

open Pattern

/-! ## The tables -/

variable {options : CompileOptions} {literals : List (List UInt8)} {literalTable : Table}
  {compilation : Compilation}

/-- For literals made of letters and digits, the table of the literals and the table of
their alternatives accept the same whole inputs.  That there are at most 255 literals, none
of them empty, is part of their being compiled. -/
theorem acceptsAnchored_alternatives_iff (nonempty : literals ≠ [])
    (alphanumeric : ∀ literal ∈ literals, Alphanumeric literal)
    (anchored : options.anchored = true) (patternIdNe : options.patternId ≠ 0)
    (literalsCompiled : compileLiterals options literals = .ok literalTable)
    (done : compile options (alternatives literals) = .ok compilation) :
    ∃ patternTable, compilation.table = .ok patternTable ∧ ∀ input : List UInt8,
      (patternTable.acceptsAnchored input).isSome = true ↔
        (literalTable.acceptsAnchored input).isSome = true := by
  have compiled := compiled_of_compile done
  have recognizes := compiled.recognizes_automaton
  rw [anchored] at recognizes
  obtain ⟨patternTable, made, emits⟩ := compiled.exists_table patternIdNe
  refine ⟨patternTable, made, ?_⟩
  intro input
  have mem_iff := mem_languageOf_alternatives nonempty
    (numberable_of_compileLiterals literalsCompiled).ne_nil alphanumeric input
  rw [acceptsAnchored_eq_of_compileLiterals literalsCompiled anchored]
  rcases emits.acceptsAnchored_cases patternIdNe recognizes input with
    ⟨inputMem, found⟩ | ⟨inputNotMem, missing⟩
  · simp [mem_iff.mp inputMem, found]
  · simp [mt mem_iff.mpr inputNotMem, missing]

/-- The literals `ab` and `a` are the alternatives `(ab)|(a)`. -/
theorem acceptsAnchored_alternatives_iff_overlap :
    ∃ literalTable compilation patternTable,
      compileLiterals { CompileOptions.default with anchored := true } [[97, 98], [97]] =
          .ok literalTable ∧
        compile { CompileOptions.default with anchored := true } "(ab)|(a)" = .ok compilation ∧
        compilation.table = .ok patternTable ∧
        ∀ input : List UInt8, (patternTable.acceptsAnchored input).isSome = true ↔
          (literalTable.acceptsAnchored input).isSome = true := by
  have text_eq : alternatives [[97, 98], [97]] = "(ab)|(a)" := by decide
  have read : Pattern.read CompileOptions.default.nestingLimit "(ab)|(a)" =
      .ok (.alternate (.concat (.symbol 97) (.symbol 98)) (.symbol 97)) := rfl
  have numberable : Numberable [[97, 98], [97]] := ⟨by decide, by decide⟩
  obtain ⟨literalTable, literalsCompiled⟩ := @exists_anchored_compileLiterals_eq_ok _
    { CompileOptions.default with anchored := true } rfl numberable
    (show ∀ literal ∈ [[97, 98], [97]], endMarker ∉ literal by decide)
    (by
      intro set literals_eq
      rw [Trie.ofSet, literals_eq]
      decide)
  obtain ⟨compilation, done⟩ :=
    @exists_compile_eq_ok { CompileOptions.default with anchored := true } "(ab)|(a)" _ read
      (by decide) (by decide)
  rw [← text_eq] at done
  obtain ⟨patternTable, made, agree⟩ := acceptsAnchored_alternatives_iff (by decide)
    (show ∀ literal ∈ [[97, 98], [97]], Alphanumeric literal by decide) rfl (by decide)
    literalsCompiled done
  rw [text_eq] at done
  exact ⟨literalTable, compilation, patternTable, literalsCompiled, done, made, agree⟩

end ByteSignature
