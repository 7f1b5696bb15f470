import ByteSignature.Proofs.Compile.Meaning

/-!
# Compiled patterns are canonical

Minimized compilations that accept the same inputs have the same description, hence the
same table, and no automaton for the same inputs has fewer states.
-/

namespace ByteSignature

open Pattern

variable {options options2 : CompileOptions} {source source2 : String}
  {compilation compilation2 : Compilation}

namespace Compiled

theorem automaton_eq_minimize (compiled : Compiled options source compilation)
    (minimize : options.minimize = true) :
    compilation.automaton = compilation.dfa.minimize := by
  rw [compiled.automaton_eq, if_pos minimize]

/-- Two compilations accept the same inputs when their texts denote the same language. -/
theorem accepts_eq_iff (compiled : Compiled options source compilation)
    (compiled2 : Compiled options2 source2 compilation2) :
    (∀ input, compilation.accepts input = compilation2.accepts input) ↔
      languageOf source = languageOf source2 := by
  constructor
  · intro agree
    ext input
    rw [← compiled.accepts_iff, ← compiled2.accepts_iff, agree input]
  · intro eq input
    rw [Bool.eq_iff_iff, compiled.accepts_iff, compiled2.accepts_iff, eq]

theorem shape_eq_iff (compiled : Compiled options source compilation)
    (compiled2 : Compiled options2 source2 compilation2) (minimize : options.minimize = true)
    (minimize2 : options2.minimize = true) (sameMode : options.anchored = options2.anchored) :
    compilation.automaton.shape = compilation2.automaton.shape ↔
      languageOf source = languageOf source2 := by
  have recognizes2 := compiled2.recognizes
  rw [← sameMode] at recognizes2
  rw [compiled.automaton_eq_minimize minimize, compiled2.automaton_eq_minimize minimize2,
    Dfa.shape_minimize_eq_iff compiled.recognizes recognizes2, marked_injective]

end Compiled

/-- Minimized compilations of one mode accept the same inputs exactly when their automata
have the same description, and then one id gives them the same table. -/
theorem compile_canonical (done : compile options source = .ok compilation)
    (done2 : compile options2 source2 = .ok compilation2) (minimize : options.minimize = true)
    (minimize2 : options2.minimize = true) (sameMode : options.anchored = options2.anchored) :
    ((∀ input, compilation.accepts input = compilation2.accepts input) ↔
        compilation.automaton.shape = compilation2.automaton.shape) ∧
      ((∀ input, compilation.accepts input = compilation2.accepts input) →
        options.patternId = options2.patternId → options.patternId ≠ 0 →
          ∃ table, compilation.table = .ok table ∧ compilation2.table = .ok table) := by
  have compiled := compiled_of_compile done
  have compiled2 := compiled_of_compile done2
  have shape_iff : (∀ input, compilation.accepts input = compilation2.accepts input) ↔
      compilation.automaton.shape = compilation2.automaton.shape := by
    rw [compiled.accepts_eq_iff compiled2,
      compiled.shape_eq_iff compiled2 minimize minimize2 sameMode]
  refine ⟨shape_iff, ?_⟩
  intro agree sameId patternIdNe
  obtain ⟨table, made, _⟩ := compiled.exists_table patternIdNe
  refine ⟨table, made, ?_⟩
  have same := Dfa.emit_eq_of_shape_eq compiled.recognizes_automaton.inRange
    compiled2.recognizes_automaton.inRange (shape_iff.mp agree) options.patternId
  rw [Compilation.table, compiled.patternId_eq] at made
  rw [Compilation.table, compiled2.patternId_eq, ← sameId, ← same, made]

/-- The order of alternatives leaves no trace in the table. -/
theorem compile_canonical_swap :
    ∃ compilation compilation2 table,
      compile .default "a|b" = .ok compilation ∧ compile .default "b|a" = .ok compilation2 ∧
        compilation.automaton.shape = compilation2.automaton.shape ∧
        compilation.table = .ok table ∧ compilation2.table = .ok table := by
  have read : Pattern.read CompileOptions.default.nestingLimit "a|b" =
      .ok (.alternate (.symbol 97) (.symbol 98)) := rfl
  have read2 : Pattern.read CompileOptions.default.nestingLimit "b|a" =
      .ok (.alternate (.symbol 98) (.symbol 97)) := rfl
  obtain ⟨compilation, done⟩ :=
    @exists_compile_eq_ok .default "a|b" _ read (by decide) (by decide)
  obtain ⟨compilation2, done2⟩ :=
    @exists_compile_eq_ok .default "b|a" _ read2 (by decide) (by decide)
  have agree : ∀ input, compilation.accepts input = compilation2.accepts input := by
    rw [(compiled_of_compile done).accepts_eq_iff (compiled_of_compile done2),
      languageOf_eq_of_read read, languageOf_eq_of_read read2]
    exact add_comm _ _
  obtain ⟨shape_iff, sameTable⟩ := compile_canonical done done2 rfl rfl rfl
  obtain ⟨table, made, made2⟩ := sameTable agree rfl (by decide)
  exact ⟨compilation, compilation2, table, done, done2, shape_iff.mp agree, made, made2⟩

/-- No automaton that accepts the same inputs as a minimized compilation has fewer
states. -/
theorem compile_fewest_states (done : compile options source = .ok compilation)
    (minimize : options.minimize = true) (dfa : Dfa)
    (agree : ∀ input, dfa.accepts input = compilation.automaton.accepts input) :
    compilation.automaton.size ≤ dfa.size := by
  have compiled := compiled_of_compile done
  have recognizes := compiled.recognizes_automaton
  have minimizes := Dfa.minimizes_minimize compiled.recognizes.inRange
  rw [← compiled.automaton_eq_minimize minimize] at minimizes
  apply recognizes.size_le minimizes.separated
  intro input
  rw [agree, recognizes.accepts_iff]

/-- An automaton that accepts the letter `a` alone, with two states. -/
def letterAutomaton : Dfa where
  states := #[⟨[(97, 1)], false, List.nodup_singleton _⟩, .isolated true]
  start := 0

theorem accepts_letterAutomaton_iff (input : List UInt8) :
    letterAutomaton.accepts input = true ↔ input = [97] := by
  have target_start (symbol : UInt8) :
      letterAutomaton.target? 0 symbol = if symbol = 97 then some 1 else none := by
    by_cases isLetter : symbol = 97
    · subst isLetter
      decide
    · have different : (symbol == 97) = false := by simpa using isLetter
      simp [letterAutomaton, Dfa.target?, Dfa.state, Dfa.State.target?, List.lookup_cons,
        different, isLetter]
  have target_end (symbol : UInt8) : letterAutomaton.target? 1 symbol = none := rfl
  have walk_eq : letterAutomaton.walk input = letterAutomaton.walkFrom 0 input := rfl
  rw [Dfa.accepts, walk_eq]
  rcases input with _ | ⟨first, _ | ⟨second, rest⟩⟩
  · decide
  · by_cases isLetter : first = 97
    · subst isLetter
      decide
    · simp [Dfa.walkFrom, target_start, isLetter]
  · by_cases isLetter : first = 97
    · simp [Dfa.walkFrom, target_start, target_end, isLetter]
    · simp [Dfa.walkFrom, target_start, isLetter]

/-- The letter `a` takes no more than two states. -/
theorem compile_fewest_states_letter :
    ∃ compilation, compile .default "a" = .ok compilation ∧ compilation.automaton.size ≤ 2 := by
  have read : Pattern.read CompileOptions.default.nestingLimit "a" = .ok (.symbol 97) := rfl
  obtain ⟨compilation, done⟩ :=
    @exists_compile_eq_ok .default "a" _ read (by decide) (by decide)
  have recognizes := (compiled_of_compile done).recognizes_automaton
  have agree : ∀ input, letterAutomaton.accepts input = compilation.automaton.accepts input := by
    intro input
    rw [Bool.eq_iff_iff, recognizes.accepts_iff, accepts_letterAutomaton_iff,
      languageOf_eq_of_read read]
    rfl
  exact ⟨compilation, done, compile_fewest_states done rfl letterAutomaton agree⟩

end ByteSignature
