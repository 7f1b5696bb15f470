import ByteSignature.Proofs.Nfa.Build
import ByteSignature.Proofs.Pattern.Reading

/-!
# Texts that are built

Whether a text can be built is visible in its characters: they belong to the pattern
alphabet, without blanks they are an expression, its groups are nested within the limit,
and its signs take no more states than there may be.  Every symbol, pipe, star and plus
takes two states and every question mark takes one.  Parentheses and juxtaposition take
none.
-/

namespace ByteSignature

namespace Pattern

/-- The characters that a pattern text may contain. -/
def inAlphabet (character : Char) : Bool :=
  character.isAlphanum || ['(', ')', '|', '*', '+', '?'].contains character || isBlank character

/-- The number of states that the signs of a text take. -/
def signStates (text : List Char) : Nat :=
  2 * (text.countP Char.isAlphanum + text.count '|' + text.count '*' + text.count '+') +
    text.count '?'

theorem signStates_append (first second : List Char) :
    signStates (first ++ second) = signStates first + signStates second := by
  simp only [signStates, List.countP_append, List.count_append]
  omega

theorem signStates_singleton_of_isAlphanum {character : Char}
    (alphanumeric : character.isAlphanum = true) : signStates [character] = 2 := by
  have ne {sign : Char} (notAlphanumeric : sign.isAlphanum = false) : character ≠ sign := by
    rintro rfl
    rw [alphanumeric] at notAlphanumeric
    cases notAlphanumeric
  have pipe : character ≠ '|' := ne rfl
  have star : character ≠ '*' := ne rfl
  have plus : character ≠ '+' := ne rfl
  have question : character ≠ '?' := ne rfl
  simp [signStates, alphanumeric, pipe, star, plus, question]

/-- The signs of a text take the states of the pattern that it spells. -/
theorem Spells.stateCount_eq {part : Part} {text : List Char} {pattern : Pattern}
    (spells : Spells part text pattern) : pattern.stateCount = signStates text := by
  induction spells with
  | symbol alphanumeric => exact (signStates_singleton_of_isAlphanum alphanumeric).symm
  | group inner ih =>
      rw [← List.singleton_append, signStates_append, signStates_append, ih]
      simp [signStates]
  | single operand ih => exact ih
  | repeated repetition operand ih =>
      rw [signStates_append, ← ih]
      cases repetition <;> rfl
  | first term ih => exact ih
  | joined join expression term ihBefore ih =>
      rw [signStates_append, signStates_append, ← ihBefore, ← ih]
      cases join with
      | concat => rfl
      | alternate => exact Nat.add_right_comm _ _ _

theorem inAlphabet_of_ne_garbage {character : Char}
    (notGarbage : TokenKind.ofChar character ≠ .garbage) : inAlphabet character = true := by
  unfold TokenKind.ofChar at notGarbage
  split at notGarbage
  · rename_i alphanumeric
    simp [inAlphabet, alphanumeric]
  · split at notGarbage <;> simp_all [inAlphabet, isBlank]

/-- A text that spells an expression stays within the alphabet. -/
theorem inAlphabet_of_spells {source : String} {pattern : Pattern}
    (spells : Spells .expression (visible source) pattern) :
    ∀ character ∈ source.toList, inAlphabet character = true := by
  intro character characterMem
  by_cases blank : isBlank character = true
  · simp [inAlphabet, blank]
  · apply inAlphabet_of_ne_garbage
    apply spells.kind_ne_garbage
    exact List.mem_filter.mpr ⟨characterMem, by simpa using blank⟩

end Pattern

open Nfa Pattern

/-- A text that is not read is not built. -/
theorem exists_buildSource_eq_error {nestingLimit : Nat} {source : String}
    {failure : ReadFailure} (read : Pattern.read nestingLimit source = .error failure)
    (builder : Builder) :
    ∃ error next, buildSource nestingLimit source builder = .error error next := by
  rw [buildSource, read]
  simp only [bind, EStateM.bind]
  cases (Pattern.buildAll failure.operands).adaptExcept CompileError.ofBuildFault builder with
  | ok done next => exact ⟨_, _, rfl⟩
  | error error next => exact ⟨_, _, rfl⟩

end ByteSignature
