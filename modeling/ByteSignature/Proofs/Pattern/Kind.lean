import ByteSignature.Pattern.Token
import ByteSignature.Proofs.Pattern.Grammar

/-!
# Classes of characters

Every character is of one class: that of the list it stands on, or garbage if it stands on none.
Neighbours share a piece if both are blank or both are garbage.
-/

namespace ByteSignature

namespace TokenKind

theorem ofChar_eq_blank_iff {character : Char} :
    ofChar character = blank ↔ Pattern.isBlank character = true := by
  unfold ofChar
  split
  · rename_i alphanumeric
    simp only [reduceCtorEq, false_iff, Pattern.isBlank, Bool.or_eq_true, beq_iff_eq]
    rintro (((rfl | rfl) | rfl) | rfl) <;> cases alphanumeric
  · split <;> simp_all [Pattern.isBlank]

theorem ofChar_eq_symbol_iff {character : Char} :
    ofChar character = symbol ↔ character.isAlphanum = true := by
  unfold ofChar
  split
  · simpa
  · split <;> simp_all

theorem ofChar_eq_openParen_iff {character : Char} :
    ofChar character = openParen ↔ character = '(' := by
  constructor
  · unfold ofChar
    split
    · simp
    · split <;> simp_all
  · rintro rfl
    rfl

theorem ofChar_eq_closeParen_iff {character : Char} :
    ofChar character = closeParen ↔ character = ')' := by
  constructor
  · unfold ofChar
    split
    · simp
    · split <;> simp_all
  · rintro rfl
    rfl

theorem ofChar_eq_pipe_iff {character : Char} :
    ofChar character = pipe ↔ character = '|' := by
  constructor
  · unfold ofChar
    split
    · simp
    · split <;> simp_all
  · rintro rfl
    rfl

/-! ## Listed characters -/

/-- The characters that are listed for a class.  For garbage there are none. -/
def Lists : TokenKind → Char → Prop
  | symbol, character => character.isAlphanum = true
  | openParen, character => character = '('
  | closeParen, character => character = ')'
  | pipe, character => character = '|'
  | star, character => character = '*'
  | plus, character => character = '+'
  | question, character => character = '?'
  | blank, character => character = ' ' ∨ character = '\t' ∨ character = '\r' ∨ character = '\n'
  | garbage, _ => False

/-- The character is of the class: it is listed for it, or it is listed for none and the class
is garbage. -/
def Takes (kind : TokenKind) (character : Char) : Prop :=
  kind.Lists character ∨ kind = garbage ∧ ∀ other : TokenKind, ¬ other.Lists character

theorem lists_ofChar {character : Char} (notGarbage : ofChar character ≠ garbage) :
    (ofChar character).Lists character := by
  unfold ofChar at notGarbage ⊢
  split
  · assumption
  · split <;> simp_all [Lists]

theorem ofChar_eq_of_lists {kind : TokenKind} {character : Char} (lists : kind.Lists character) :
    ofChar character = kind := by
  cases kind with
  | symbol => exact ofChar_eq_symbol_iff.mpr lists
  | blank => rcases lists with rfl | rfl | rfl | rfl <;> rfl
  | garbage => exact lists.elim
  | _ =>
      rw [show character = _ from lists]
      rfl

theorem takes_iff {kind : TokenKind} {character : Char} :
    kind.Takes character ↔ ofChar character = kind := by
  constructor
  · rintro (lists | ⟨rfl, unlisted⟩)
    · exact ofChar_eq_of_lists lists
    · by_contra notGarbage
      exact unlisted _ (lists_ofChar notGarbage)
  · rintro rfl
    by_cases isGarbage : ofChar character = garbage
    · refine .inr ⟨isGarbage, ?_⟩
      intro other lists
      have noClass := isGarbage.symm.trans (ofChar_eq_of_lists lists)
      rw [← noClass] at lists
      exact lists
    · exact .inl (lists_ofChar isGarbage)

/-! ## Runs -/

/-- Neighbours of the classes do not belong to one run. -/
structure Apart (first second : TokenKind) : Prop where
  notBlank : ¬ (first = blank ∧ second = blank)
  notGarbage : ¬ (first = garbage ∧ second = garbage)

instance (first second : TokenKind) : Decidable (first.Apart second) :=
  decidable_of_iff (¬ (first = blank ∧ second = blank) ∧ ¬ (first = garbage ∧ second = garbage))
    ⟨fun ⟨notBlank, notGarbage⟩ => ⟨notBlank, notGarbage⟩,
      fun ⟨notBlank, notGarbage⟩ => ⟨notBlank, notGarbage⟩⟩

/-- Neighbouring characters of the class share a piece. -/
def formsRuns : TokenKind → Bool
  | blank | garbage => true
  | _ => false

theorem formsRuns_eq_false_iff {kind : TokenKind} :
    kind.formsRuns = false ↔ kind ≠ blank ∧ kind ≠ garbage := by
  cases kind <;> decide

theorem apart_iff {first second : TokenKind} :
    first.Apart second ↔ (first = second → first.formsRuns = false) := by
  cases first <;> cases second <;> decide

end TokenKind

namespace Pattern

theorem bounds_of_isAlphanum {character : Char} (alphanumeric : character.isAlphanum = true) :
    48 ≤ character.toNat ∧ character.toNat ≤ 122 := by
  rcases Bool.or_eq_true_iff.mp alphanumeric with alphabetic | digit
  · rcases Bool.or_eq_true_iff.mp alphabetic with upper | lower
    · obtain ⟨low, high⟩ : 65 ≤ character.toNat ∧ character.toNat ≤ 90 := of_decide_eq_true upper
      exact ⟨by omega, by omega⟩
    · obtain ⟨low, high⟩ := Bool.and_eq_true_iff.mp lower
      exact ⟨Nat.le_trans (by decide) (of_decide_eq_true low), of_decide_eq_true high⟩
  · obtain ⟨low, high⟩ := Bool.and_eq_true_iff.mp digit
    exact ⟨of_decide_eq_true low, Nat.le_trans (of_decide_eq_true high) (by decide)⟩

theorem isBlank_of_isAlphanum {character : Char} (alphanumeric : character.isAlphanum = true) :
    isBlank character = false := by
  rw [Bool.eq_false_iff, ne_eq, ← TokenKind.ofChar_eq_blank_iff,
    TokenKind.ofChar_eq_symbol_iff.mpr alphanumeric]
  decide

end Pattern

namespace TokenKind

/-- Characters that stand alone have one byte. -/
theorem utf8Size_of_formsRuns_eq_false {character : Char}
    (alone : (ofChar character).formsRuns = false) : character.utf8Size = 1 := by
  have lists := lists_ofChar (formsRuns_eq_false_iff.mp alone).2
  generalize ofChar character = kind at alone lists
  cases kind with
  | symbol => exact Char.utf8Size_eq_one_iff.mpr <|
      UInt32.le_iff_toNat_le.mpr ((Pattern.bounds_of_isAlphanum lists).2.trans (by decide))
  | blank => cases alone
  | garbage => cases alone
  | _ =>
      rw [show character = _ from lists]
      rfl

end TokenKind

end ByteSignature
