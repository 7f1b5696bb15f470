import ByteSignature.Pattern.Basic
import Mathlib.Computability.Language

/-!
# The grammar and the languages of patterns

A pattern denotes a language over bytes in the usual way.  A text spells a pattern by
the grammar

    expression := term ( term | '|' term )*
    term       := primary ( '*' | '+' | '?' )?
    primary    := alphanumeric | '(' expression ')'

in which an expression joins each further term to everything before it.  Blanks are
dropped before the grammar is applied.  The language of a text is that of the pattern
it spells.
-/

namespace ByteSignature

open Computability

/-- The sign of a repetition. -/
def Repetition.sign : Repetition → Char
  | optional => '?'
  | kleene => '*'
  | positive => '+'

/-- The sign between two joined operands.  Juxtaposition has none. -/
def Join.sign : Join → List Char
  | concat => []
  | alternate => ['|']

namespace Pattern

/-- The inputs that a pattern denotes. -/
def language : Pattern → Language UInt8
  | symbol byte => {[byte]}
  | concat first second => first.language * second.language
  | alternate first second => first.language + second.language
  | optional operand => 1 + operand.language
  | kleene operand => operand.language∗
  | positive operand => operand.language * operand.language∗

/-- The parts of the grammar. -/
inductive Part where
  | primary
  | term
  | expression
  deriving DecidableEq, Repr

/-- The texts without blanks that a part of the grammar derives, with the patterns they
stand for. -/
inductive Spells : Part → List Char → Pattern → Prop where
  /-- An ASCII letter or digit stands for its byte. -/
  | symbol {character : Char} (alphanumeric : character.isAlphanum = true) :
      Spells .primary [character] (.symbol character.toNat.toUInt8)
  /-- A group stands for the expression in it. -/
  | group {text : List Char} {pattern : Pattern} (inner : Spells .expression text pattern) :
      Spells .primary ('(' :: (text ++ [')'])) pattern
  /-- A primary may stand alone. -/
  | single {text : List Char} {pattern : Pattern} (operand : Spells .primary text pattern) :
      Spells .term text pattern
  /-- One repetition may follow a primary. -/
  | repeated {text : List Char} {pattern : Pattern} (repetition : Repetition)
      (operand : Spells .primary text pattern) :
      Spells .term (text ++ [repetition.sign]) (repetition.apply pattern)
  /-- An expression starts with a term. -/
  | first {text : List Char} {pattern : Pattern} (term : Spells .term text pattern) :
      Spells .expression text pattern
  /-- A further term is joined to everything before it. -/
  | joined {before text : List Char} {left right : Pattern} (join : Join)
      (expression : Spells .expression before left) (term : Spells .term text right) :
      Spells .expression (before ++ join.sign ++ text) (join.apply left right)

/-- The characters that separate nothing: space, tab, carriage return, line feed. -/
def isBlank (character : Char) : Bool :=
  character == ' ' || character == '\t' || character == '\r' || character == '\n'

/-- The characters of a text that the grammar sees. -/
def visible (source : String) : List Char :=
  source.toList.filter fun character => !isBlank character

/-- The inputs that a text denotes: those of a pattern that its visible characters
spell. -/
def languageOf (source : String) : Language UInt8 :=
  {input | ∃ pattern, Spells .expression (visible source) pattern ∧ input ∈ pattern.language}

theorem mem_languageOf {source : String} {input : List UInt8} :
    input ∈ languageOf source ↔
      ∃ pattern, Spells .expression (visible source) pattern ∧ input ∈ pattern.language :=
  Iff.rfl

/-! ## Groups are balanced -/

theorem Spells.count_eq {part : Part} {text : List Char} {pattern : Pattern}
    (spells : Spells part text pattern) : text.count '(' = text.count ')' := by
  induction spells with
  | @symbol character alphanumeric =>
      have notOpen : character ≠ '(' := by rintro rfl; cases alphanumeric
      have notClose : character ≠ ')' := by rintro rfl; cases alphanumeric
      simp [notOpen, notClose]
  | group inner ih => simp [ih]
  | single operand ih => exact ih
  | repeated repetition operand ih => cases repetition <;> simp [Repetition.sign, ih]
  | first term ih => exact ih
  | joined join expression term ihBefore ih =>
      cases join <;> simp [Join.sign, ihBefore, ih]

/-- The groups of a text are nested at most `limit` deep: no prefix opens more than
`limit` groups beyond those that it closes. -/
def Nested (limit : Nat) (text : List Char) : Prop :=
  ∀ before, before <+: text → before.count '(' ≤ before.count ')' + limit

theorem nested_nil (limit : Nat) : Nested limit [] := by
  intro before isPrefix
  rw [List.prefix_nil.mp isPrefix]
  simp

theorem Nested.of_append {limit : Nat} {first second : List Char}
    (nested : Nested limit (first ++ second)) : Nested limit first :=
  fun before isPrefix => nested before (isPrefix.trans (List.prefix_append _ _))

/-- What follows a balanced text is nested as deep as the whole. -/
theorem Nested.of_append_right {limit : Nat} {first second : List Char}
    (nested : Nested limit (first ++ second))
    (balanced : first.count '(' = first.count ')') : Nested limit second := by
  intro before isPrefix
  have whole := nested (first ++ before) ((List.prefix_append_right_inj first).mpr isPrefix)
  rw [List.count_append, List.count_append] at whole
  omega

theorem Nested.pos_of_group {limit : Nat} {text : List Char}
    (nested : Nested limit ('(' :: text)) : 0 < limit := by
  have first := nested ['('] ((List.prefix_cons_inj '(').mpr List.nil_prefix)
  simpa [Nat.succ_le_iff] using first

/-- What stands in a group has one level less to itself. -/
theorem Nested.of_group {limit : Nat} {text : List Char}
    (nested : Nested limit ('(' :: text)) : Nested (limit - 1) text := by
  have positive := nested.pos_of_group
  intro before isPrefix
  have whole := nested ('(' :: before) ((List.prefix_cons_inj '(').mpr isPrefix)
  rw [List.count_cons_self, List.count_cons_of_ne (by decide)] at whole
  omega

theorem nested_append_singleton {limit : Nat} {text : List Char} {character : Char}
    (nested : Nested limit text)
    (whole : (text ++ [character]).count '(' ≤ (text ++ [character]).count ')' + limit) :
    Nested limit (text ++ [character]) := by
  intro before isPrefix
  rcases List.prefix_concat_iff.mp isPrefix with rfl | shorter
  · exact whole
  · exact nested before shorter

/-- No text is nested deeper than it has opening parentheses. -/
theorem nested_count (text : List Char) : Nested (text.count '(') text := by
  intro before isPrefix
  have le := isPrefix.sublist.count_le '('
  omega

end Pattern

end ByteSignature
