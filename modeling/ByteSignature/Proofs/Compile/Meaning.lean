import ByteSignature.Proofs.Compile.Automaton
import ByteSignature.Proofs.Dfa.Language
import ByteSignature.Proofs.Table.Emission

/-!
# The meaning of compiled patterns

Every stage of a compiled pattern speaks about one language, that of the text.  Where
whole inputs are matched, the automata read the end marker behind its words, and no word
contains the marker.
-/

namespace ByteSignature

open Computability Pattern

/-- The language that is compiled: where whole inputs are matched, the end marker follows
every word. -/
def marked (anchored : Bool) (language : Language UInt8) : Language UInt8 :=
  if anchored then language * {[endMarker]} else language

theorem append_endMarker_mem_iff {language : Language UInt8} {input : List UInt8} :
    input ++ [endMarker] ∈ language * {[endMarker]} ↔ input ∈ language := by
  rw [Language.mem_mul]
  constructor
  · rintro ⟨word, wordMem, last, rfl, eq⟩
    rwa [← List.append_cancel_right eq]
  · intro inputMem
    exact ⟨input, inputMem, [endMarker], rfl, rfl⟩

theorem marked_injective {anchored : Bool} {language language2 : Language UInt8} :
    marked anchored language = marked anchored language2 ↔ language = language2 := by
  cases anchored with
  | false => exact Iff.rfl
  | true =>
      constructor
      · intro eq
        have same : language * {[endMarker]} = language2 * {[endMarker]} := eq
        ext input
        rw [← append_endMarker_mem_iff, same, append_endMarker_mem_iff]
      · rintro rfl
        rfl

theorem language_augment (options : CompileOptions) (pattern : Pattern) :
    (options.augment pattern).language = marked options.anchored pattern.language := by
  rw [CompileOptions.augment, marked]
  split <;> rfl

variable {options options2 : CompileOptions} {source source2 : String}
  {compilation compilation2 : Compilation}

/-! ## Stages -/

/-- What is known of a compiled pattern: its automaton recognizes the language of the text
and fits under the limit, and nothing but the minimization that was asked for lies between
it and the first deterministic automaton. -/
structure Compiled (options : CompileOptions) (source : String) (compilation : Compilation) :
    Prop where
  recognizes : compilation.dfa.Recognizes (marked options.anchored (languageOf source))
  size_le : compilation.dfa.size ≤ options.dfaLimit
  anchored_eq : compilation.anchored = options.anchored
  patternId_eq : compilation.patternId = options.patternId
  automaton_eq : compilation.automaton =
    if options.minimize then compilation.dfa.minimize else compilation.dfa

theorem compiled_of_compile (done : compile options source = .ok compilation) :
    Compiled options source compilation := by
  rw [compile] at done
  cases built : nfaOfSource options source with
  | error fault =>
      rw [built] at done
      cases done
  | ok nfa =>
      rw [built] at done
      dsimp only at done
      cases determined : Dfa.ofNfa nfa options.dfaLimit with
      | error excess =>
          rw [determined] at done
          cases done
      | ok dfa =>
          rw [determined] at done
          cases done
          obtain ⟨pattern, read⟩ := exists_read_of_nfaOfSource built
          rcases nfaOfSource_cases read with ⟨_, nfa2, built2, recognizes, _⟩ | ⟨_, _, failed⟩
          · rw [built, Except.ok.injEq] at built2
            subst built2
            obtain ⟨determines, sizeLe⟩ := Dfa.determines_of_ofNfa determined
            rw [language_augment, ← languageOf_eq_of_read read] at recognizes
            refine ⟨Dfa.recognizes_of_determines recognizes determines, sizeLe, rfl, rfl, ?_⟩
            cases options.minimize <;> rfl
          · rw [built] at failed
            cases failed

/-- A pattern is compiled when its groups, its states and all sets of its states fit under
the limits. -/
theorem exists_compile_eq_ok {pattern : Pattern}
    (read : Pattern.read options.nestingLimit source = .ok pattern)
    (nfaFits : (options.augment pattern).stateCount ≤ options.nfaLimit)
    (dfaFits : 2 ^ (options.augment pattern).stateCount ≤ options.dfaLimit) :
    ∃ compilation, compile options source = .ok compilation := by
  rcases nfaOfSource_cases read with ⟨_, nfa, built, _, sizeLe⟩ | ⟨full, _⟩
  · have enough : 2 ^ nfa.size ≤ options.dfaLimit :=
      (Nat.pow_le_pow_right Nat.zero_lt_two sizeLe).trans dfaFits
    obtain ⟨dfa, determined⟩ := Dfa.exists_ofNfa_eq_ok enough
    rw [compile, built]
    dsimp only
    rw [determined]
    exact ⟨_, rfl⟩
  · omega

namespace Compiled

variable (compiled : Compiled options source compilation)

include compiled

/-- The last automaton recognizes the language of the text. -/
theorem recognizes_automaton :
    compilation.automaton.Recognizes (marked options.anchored (languageOf source)) := by
  rw [compiled.automaton_eq]
  split
  · exact compiled.recognizes.of_minimizes (Dfa.minimizes_minimize compiled.recognizes.inRange)
  · exact compiled.recognizes

theorem length_order_le : compilation.automaton.order.length ≤ tableStateSpace := by
  have reachable := compiled.recognizes.inRange.length_order_le
  have fits : compilation.dfa.order.length ≤ tableStateSpace :=
    (reachable.trans compiled.size_le).trans options.dfaLimit_le
  rw [compiled.automaton_eq]
  split
  · have minimizes := Dfa.minimizes_minimize compiled.recognizes.inRange
    exact (minimizes.inRange.length_order_le.trans minimizes.size_le).trans fits
  · exact fits

/-- Exactly the words of the language are accepted. -/
theorem accepts_iff (input : List UInt8) :
    compilation.accepts input = true ↔ input ∈ languageOf source := by
  have recognizes := compiled.recognizes_automaton
  rw [Compilation.accepts, compiled.anchored_eq]
  cases anchored : options.anchored with
  | false =>
      rw [anchored] at recognizes
      exact recognizes.accepts_iff input
  | true =>
      rw [anchored] at recognizes
      have word_iff := recognizes.answer?_eq_some_true_iff (input ++ [endMarker])
      rw [marked, if_pos rfl, append_endMarker_mem_iff, Dfa.answer?,
        Dfa.walkFrom_append_singleton, ← Dfa.walk_eq_walkFrom recognizes.inRange] at word_iff
      rw [← word_iff, if_pos rfl]
      cases (compilation.automaton.walk input).bind fun id =>
        compilation.automaton.target? id endMarker <;> simp

/-- The table of a compiled pattern exists and moves as its last automaton does. -/
theorem exists_table (patternIdNe : options.patternId ≠ 0) :
    ∃ table, compilation.table = .ok table ∧
      compilation.automaton.Emits options.patternId table := by
  obtain ⟨table, emitted, made⟩ := Dfa.exists_emit_eq_ok patternIdNe compiled.length_order_le
  refine ⟨table, ?_, Dfa.emits_of_ofEntries compiled.recognizes_automaton.inRange
    compiled.length_order_le made⟩
  rw [Compilation.table, compiled.patternId_eq, emitted]

end Compiled

/-! ## Tables -/

namespace Dfa.Emits

variable {dfa : Dfa} {patternId : UInt8} {table : Table} {language : Language UInt8}

/-- A table for whole inputs finds its id behind the end marker of the words. -/
theorem acceptsAnchored_cases (emits : dfa.Emits patternId table) (patternIdNe : patternId ≠ 0)
    (recognizes : dfa.Recognizes (language * {[endMarker]})) (input : List UInt8) :
    (input ∈ language ∧ table.acceptsAnchored input = some patternId) ∨
      (input ∉ language ∧ table.acceptsAnchored input = none) := by
  have word_iff := recognizes.answer?_eq_some_true_iff (input ++ [endMarker])
  rw [append_endMarker_mem_iff, answer?, walkFrom_append_singleton] at word_iff
  have state := emits.rel_stateAfter emits.start input
  rw [Table.acceptsAnchored]
  generalize table.stateAfter 0 input = after at state
  generalize dfa.walkFrom dfa.start input = reached at state word_iff
  cases state with
  | none => exact Or.inr ⟨by simpa using word_iff, rfl⟩
  | @some code id coded =>
      have step := emits.lookup coded endMarker
      rw [Option.bind_some] at word_iff
      dsimp only
      generalize table.lookup code endMarker = found at step
      generalize dfa.target? id endMarker = edge at step word_iff
      cases step with
      | none => exact Or.inr ⟨by simpa using word_iff, rfl⟩
      | @some transition target enters =>
          rw [Option.map_some, Option.some.injEq] at word_iff
          dsimp only
          rw [Table.Transition.isAccepting, enters.2, acceptFlag]
          by_cases inputMem : input ∈ language
          · simp [inputMem, word_iff.mpr inputMem, patternIdNe]
          · simp [inputMem, mt word_iff.mp inputMem]

end Dfa.Emits

end ByteSignature
