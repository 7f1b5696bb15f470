import ByteSignature.Proofs.Pattern.Refusal

/-!
# Open groups and parentheses

A group is open as long as its parenthesis has no partner among the tokens read.  So the open
groups of a state cut what has been read at exactly these parentheses, and between them all
parentheses are paired.
-/

namespace ByteSignature

/-- Every parenthesis among the tokens has a partner. -/
inductive Token.Balanced : List Token → Prop where
  | nil : Balanced []
  | other {before : List Token} {token : Token} (balanced : Balanced before)
      (notOpenParen : token.kind ≠ .openParen) (notCloseParen : token.kind ≠ .closeParen) :
      Balanced (before ++ [token])
  | group {before inner : List Token} {opening closing : Token} (balanced : Balanced before)
      (inside : Balanced inner) (opens : opening.kind = .openParen)
      (closes : closing.kind = .closeParen) :
      Balanced (before ++ opening :: (inner ++ [closing]))

namespace Reader

open Token

/-! ## What a token does to the open groups -/

/-- A token that is read leaves the open groups as they are, opens one, or closes one. -/
inductive Moves (token : Token) (state : State) : State → Prop where
  | inside {next : State} (notOpenParen : token.kind ≠ .openParen)
      (notCloseParen : token.kind ≠ .closeParen) (levels_eq : next.levels = state.levels)
      (behind : next.position ≠ .opening) : Moves token state next
  | opens {pending : Option Pending} (opens : token.kind = .openParen) :
      Moves token state ⟨.opening, ⟨token, pending⟩ :: state.levels, state.findings⟩
  | closes {next : State} {level : Level} (closes : token.kind = .closeParen)
      (levels_eq : state.levels = level :: next.levels) (behind : next.position ≠ .opening) :
      Moves token state next

theorem moves_of_advance {limit : Nat} {token : Token} {state next : State}
    (read : advance limit state token = .ok next) : Moves token state next := by
  cases step_of_advance read with
  | symbol isSymbol => exact .inside (by simp [isSymbol]) (by simp [isSymbol]) rfl (by simp)
  | opens opens => exact .opens opens
  | pipe isPipe => exact .inside (by simp [isPipe]) (by simp [isPipe]) rfl (by simp)
  | repeats isSign =>
      have repeats := isRepetition_of_repetition? isSign
      exact .inside (TokenKind.ne_of_isRepetition repeats rfl)
        (TokenKind.ne_of_isRepetition repeats rfl) rfl (by simp)
  | closes closes => exact .closes closes rfl (by simp)

/-! ## Parentheses without a partner -/

/-- The open groups, from inside out, begin at the parentheses that have no partner. -/
inductive Encloses : List Level → List Token → Prop where
  | outermost {tokens : List Token} (balanced : Balanced tokens) : Encloses [] tokens
  | group {level : Level} {outer : List Level} {before inner : List Token}
      (encloses : Encloses outer before) (opens : level.paren.kind = .openParen)
      (balanced : Balanced inner) : Encloses (level :: outer) (before ++ level.paren :: inner)

/-- The open groups stay where what follows keeps all parentheses paired. -/
theorem Encloses.append {levels : List Level} {tokens more : List Token}
    (encloses : Encloses levels tokens)
    (keeps : ∀ {inner}, Balanced inner → Balanced (inner ++ more)) :
    Encloses levels (tokens ++ more) := by
  cases encloses with
  | outermost balanced => exact .outermost (keeps balanced)
  | group encloses opens balanced =>
      rw [List.append_assoc, List.cons_append]
      exact .group encloses opens (keeps balanced)

theorem Encloses.move {token : Token} {state next : State} {tokens : List Token}
    (encloses : Encloses state.levels tokens) (moves : Moves token state next) :
    Encloses next.levels (tokens ++ [token]) := by
  cases moves with
  | inside notOpenParen notCloseParen levels_eq =>
      rw [levels_eq]
      exact encloses.append fun balanced => balanced.other notOpenParen notCloseParen
  | opens opens => exact .group encloses opens .nil
  | closes closes levels_eq =>
      rw [levels_eq] at encloses
      cases encloses with
      | group encloses opens inside =>
          rw [List.append_assoc, List.cons_append]
          exact encloses.append fun balanced => balanced.group inside opens closes

theorem encloses_of_run {limit : Nat} {state next : State} {before tokens : List Token}
    (encloses : Encloses state.levels before) (ran : run limit state tokens = .ok next) :
    Encloses next.levels (before ++ tokens) := by
  induction tokens generalizing state before with
  | nil =>
      cases ran
      rwa [List.append_nil]
  | cons token rest ih =>
      obtain ⟨middle, first, ran⟩ := run_cons_eq_ok_iff.mp ran
      have result := ih (encloses.move (moves_of_advance first)) ran
      rwa [List.append_assoc] at result

theorem encloses_of_run_initial {limit : Nat} {state : State} {tokens : List Token}
    (ran : run limit initial tokens = .ok state) : Encloses state.levels tokens := by
  have noGroups : Encloses initial.levels [] := .outermost .nil
  exact encloses_of_run noGroups ran

/-- Where a group has just been opened, its parenthesis is the last token read. -/
theorem exists_append_of_run_opening {limit : Nat} {tokens : List Token} {level : Level}
    {outer : List Level} {findings : List Diagnostic}
    (ran : run limit initial tokens = .ok ⟨.opening, level :: outer, findings⟩) :
    ∃ before, tokens = before ++ [level.paren] ∧ level.paren.kind = .openParen := by
  rcases tokens.eq_nil_or_concat' with rfl | ⟨before, token, rfl⟩
  · cases ran
  · rw [run_append] at ran
    split at ran
    · cases ran
    · obtain ⟨last, read, ran⟩ := run_cons_eq_ok_iff.mp ran
      cases ran
      cases moves_of_advance read with
      | inside _ _ _ behind => exact absurd rfl behind
      | opens opens => exact ⟨before, rfl, opens⟩
      | closes _ _ behind => exact absurd rfl behind

end Reader

end ByteSignature
