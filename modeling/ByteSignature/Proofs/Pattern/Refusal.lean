import ByteSignature.Proofs.Pattern.Reading

/-!
# Where reading stops

Reading a text that is no pattern stops in one of two ways.  Either a token is refused in the
state that the tokens before it lead to, or all tokens are read and the state that they lead to
is unfinished.  What is found then depends on the state and on the token, but not on how deep
groups may be nested.  It is the first finding and the only one, and since a visible token that
neither repeats nor continues an expression closes a group, no finding is about input behind a
pattern.
-/

namespace ByteSignature

namespace TokenKind

theorem ne_of_isRepetition {kind other : TokenKind} (repeats : kind.isRepetition = true)
    (notRepeats : other.isRepetition = false) : kind ≠ other := by
  rintro rfl
  rw [repeats] at notRepeats
  cases notRepeats

/-- Where an expression may go on, only closing parentheses are left to stop it. -/
theorem eq_closeParen_of_stops {kind : TokenKind} (notBlank : kind ≠ blank)
    (notRepeats : kind.isRepetition = false) (notPipe : kind ≠ pipe)
    (notStarts : ¬ kind.startsTerm = true) : kind = closeParen := by
  cases kind with
  | closeParen => rfl
  | pipe => exact absurd rfl notPipe
  | blank => exact absurd rfl notBlank
  | star | plus | question => cases notRepeats
  | symbol | openParen | garbage => exact absurd rfl notStarts

end TokenKind

namespace Reader

/-! ## Findings -/

/-- What may be found when a token is refused. -/
inductive Refuses (token : Token) : State → Diagnostic → Prop where
  /-- An operand has to start, or an operator has to follow, and the token is neither. -/
  | operand {state : State} (notSymbol : token.kind ≠ .symbol)
      (notOpenParen : token.kind ≠ .openParen) : Refuses token state (operandMissing token)
  /-- The token closes a group right behind its parenthesis. -/
  | emptyGroup {level : Level} {outer : List Level} {findings : List Diagnostic}
      (closes : token.kind = .closeParen) :
      Refuses token ⟨.opening, level :: outer, findings⟩
        (.ofKind .emptyGroup ((spanOf level.paren).cover (spanOf token)))
  /-- The token closes a group where none is open. -/
  | unmatched {position : Position} {findings : List Diagnostic}
      (closes : token.kind = .closeParen) :
      Refuses token ⟨position, [], findings⟩ (.ofKind .unmatchedCloseParen (spanOf token))
  /-- The token repeats what is repeated already. -/
  | repeated {state : State} (repeats : token.kind.isRepetition = true) :
      Refuses token state (operatorRepeated token)

/-- What may be found at the end of a text of `size` bytes. -/
inductive Unfinished (size : Nat) : State → Diagnostic → Prop where
  /-- Nothing has been read. -/
  | nothing {findings : List Diagnostic} :
      Unfinished size ⟨.opening, [], findings⟩ (.ofKind .emptyPattern ⟨0, size, Nat.zero_le _⟩)
  /-- An operand has to start. -/
  | operand {state : State} : Unfinished size state (operandMissingAtEnd size)
  /-- A group is open. -/
  | group {position : Position} {level : Level} {outer : List Level}
      {findings : List Diagnostic} :
      Unfinished size ⟨position, level :: outer, findings⟩ (groupUnclosed level.paren)

/-! ## What a refused operand says -/

@[simp]
theorem operandMissing_span (token : Token) : (operandMissing token).span = spanOf token := by
  unfold operandMissing
  split
  · rfl
  · split <;> rfl

theorem operandMissing_kind (token : Token) :
    (operandMissing token).kind =
      if token.kind = .garbage then .unexpectedCharacter else .expectedPrimary := by
  by_cases garbage : token.kind = .garbage
  · simp only [operandMissing, garbage, beq_self_eq_true, if_true]
    rfl
  · simp only [operandMissing, beq_iff_eq, garbage, if_false]
    split <;> rfl

theorem operandMissing_kind_ne (token : Token) {kind : DiagnosticKind}
    (notCharacter : kind ≠ .unexpectedCharacter) (notPrimary : kind ≠ .expectedPrimary) :
    (operandMissing token).kind ≠ kind := by
  rw [operandMissing_kind]
  split
  · exact notCharacter.symm
  · exact notPrimary.symm

/-! ## One token -/

section Step

variable {limit : Nat} {token : Token} {state next : State} {operands : List Pattern}
  {findings diagnostics : List Diagnostic} {levels : List Level} {position : Position}

/-- The failure reports one finding behind those made before. -/
theorem exists_eq_append_of_report {α : Type} {inner : List Pattern} {finding : Diagnostic}
    (failed : (report findings levels inner finding : Except ReadFailure α) =
      .error ⟨operands, .malformed diagnostics⟩) : diagnostics = findings ++ [finding] := by
  cases failed
  rfl

theorem refuses_of_readOperand {pending : Option Pending}
    (failed : readOperand limit findings levels pending token =
      .error ⟨operands, .malformed diagnostics⟩) :
    ∃ diagnostic, diagnostics = findings ++ [diagnostic] ∧ Refuses token state diagnostic := by
  unfold readOperand at failed
  split at failed
  · cases failed
  · split at failed <;> cases failed
  · rename_i notSymbol notOpenParen
    exact ⟨_, exists_eq_append_of_report failed, .operand notSymbol notOpenParen⟩

/-- A token that does not continue an expression closes a group, and is refused only where none
is open. -/
theorem refuses_of_leaveExpression {expression : Pattern} (closes : token.kind = .closeParen)
    (failed : leaveExpression findings levels expression token =
      .error ⟨operands, .malformed diagnostics⟩) :
    ∃ diagnostic, diagnostics = findings ++ [diagnostic] ∧
      Refuses token ⟨position, levels, findings⟩ diagnostic := by
  cases levels with
  | nil =>
      rw [leaveExpression, if_pos closes] at failed
      exact ⟨_, exists_eq_append_of_report failed, .unmatched closes⟩
  | cons level outer =>
      rw [leaveExpression, if_pos closes] at failed
      cases failed

theorem refuses_of_readOperator {expression : Pattern} (notBlank : token.kind ≠ .blank)
    (notRepeats : token.kind.isRepetition = false)
    (failed : readOperator limit findings levels expression token =
      .error ⟨operands, .malformed diagnostics⟩) :
    ∃ diagnostic, diagnostics = findings ++ [diagnostic] ∧
      Refuses token ⟨position, levels, findings⟩ diagnostic := by
  unfold readOperator at failed
  split at failed
  · cases failed
  · rename_i notPipe
    split at failed
    · exact refuses_of_readOperand failed
    · rename_i notStarts
      have closes := TokenKind.eq_closeParen_of_stops notBlank notRepeats notPipe notStarts
      exact refuses_of_leaveExpression closes failed

/-- A visible token that is not read is refused with one more finding. -/
theorem refuses_of_advance (notBlank : token.kind ≠ .blank)
    (failed : advance limit state token = .error ⟨operands, .malformed diagnostics⟩) :
    ∃ diagnostic, diagnostics = state.findings ++ [diagnostic] ∧
      Refuses token state diagnostic := by
  rcases state with ⟨position, levels, findings⟩
  cases position with
  | opening =>
      simp only [advance] at failed
      split at failed
      · rename_i closes
        exact ⟨_, exists_eq_append_of_report failed, .emptyGroup closes⟩
      · exact refuses_of_readOperand failed
  | afterPipe left => exact refuses_of_readOperand failed
  | afterPrimary pending term =>
      simp only [advance] at failed
      split at failed
      · cases failed
      · rename_i notRepeats
        exact refuses_of_readOperator notBlank
          (isRepetition_of_repetition?_eq_none notRepeats) failed
  | afterRepetition pending term =>
      simp only [advance] at failed
      split at failed
      · rename_i repeats
        exact ⟨_, exists_eq_append_of_report failed,
          .repeated (isRepetition_of_repetition? repeats)⟩
      · rename_i notRepeats
        exact refuses_of_readOperator notBlank
          (isRepetition_of_repetition?_eq_none notRepeats) failed

theorem unfinished_of_finishExpression {size : Nat} {expression : Pattern}
    (failed : finishExpression findings levels expression =
      .error ⟨operands, .malformed diagnostics⟩) :
    ∃ diagnostic, diagnostics = findings ++ [diagnostic] ∧
      Unfinished size ⟨position, levels, findings⟩ diagnostic := by
  cases levels with
  | nil => cases failed
  | cons level outer => exact ⟨_, exists_eq_append_of_report failed, .group⟩

/-- A state that is not finished is so with one more finding. -/
theorem unfinished_of_finish {size : Nat}
    (failed : finish size state = .error ⟨operands, .malformed diagnostics⟩) :
    ∃ diagnostic, diagnostics = state.findings ++ [diagnostic] ∧
      Unfinished size state diagnostic := by
  rcases state with ⟨position, levels, findings⟩
  cases position with
  | opening =>
      cases levels with
      | nil => exact ⟨_, exists_eq_append_of_report failed, .nothing⟩
      | cons level outer => exact ⟨_, exists_eq_append_of_report failed, .operand⟩
  | afterPipe left => exact ⟨_, exists_eq_append_of_report failed, .operand⟩
  | afterPrimary pending term => exact unfinished_of_finishExpression failed
  | afterRepetition pending term => exact unfinished_of_finishExpression failed

/-! ## Findings made so far -/

/-- Tokens that are read add nothing to the findings. -/
theorem findings_of_advance (read : advance limit state token = .ok next) :
    next.findings = state.findings := by
  cases step_of_advance read <;> rfl

theorem findings_of_run {tokens : List Token} (ran : run limit state tokens = .ok next) :
    next.findings = state.findings := by
  induction tokens generalizing state with
  | nil =>
      cases ran
      rfl
  | cons token rest ih =>
      obtain ⟨middle, first, ran⟩ := run_cons_eq_ok_iff.mp ran
      exact (ih ran).trans (findings_of_advance first)

/-! ## The nesting limit -/

/-- The limit is looked at only where a group is opened. -/
theorem advance_eq_of_kind_ne_openParen (notOpenParen : token.kind ≠ .openParen)
    (limit limit2 : Nat) (state : State) :
    advance limit state token = advance limit2 state token := by
  rcases state with ⟨position, levels, findings⟩
  have operand_eq (pending : Option Pending) :
      readOperand limit findings levels pending token =
        readOperand limit2 findings levels pending token := by
    unfold readOperand
    split
    · rfl
    · contradiction
    · rfl
  have operator_eq (expression : Pattern) :
      readOperator limit findings levels expression token =
        readOperator limit2 findings levels expression token := by
    rw [readOperator, readOperator, operand_eq]
  cases position <;> simp only [advance, operand_eq, operator_eq]

/-- An operand may start anywhere. -/
theorem exists_startsOperand (position : Position) :
    ∃ pending, StartsOperand position pending := by
  cases position with
  | opening => exact ⟨_, .opening⟩
  | afterPipe left => exact ⟨_, .afterPipe left⟩
  | afterPrimary pending term => exact ⟨_, .juxtaposed (.afterPrimary pending term)⟩
  | afterRepetition pending term => exact ⟨_, .juxtaposed (.afterRepetition pending term)⟩

/-- Nothing is found at an opening parenthesis: it is read, or nested too deep. -/
theorem advance_ne_malformed_of_openParen (opens : token.kind = .openParen) :
    advance limit state token ≠ .error ⟨operands, .malformed diagnostics⟩ := by
  rcases state with ⟨position, levels, findings⟩
  obtain ⟨pending, starts⟩ := exists_startsOperand position
  rw [starts.advance_eq limit levels findings (.inr opens)]
  intro failed
  simp only [readOperand, opens] at failed
  split at failed <;> cases failed

/-- What is found at a token is found under every limit. -/
theorem advance_eq_of_malformed
    (failed : advance limit state token = .error ⟨operands, .malformed diagnostics⟩)
    (limit2 : Nat) :
    advance limit2 state token = .error ⟨operands, .malformed diagnostics⟩ := by
  rw [← failed]
  have notOpenParen : token.kind ≠ .openParen :=
    fun opens => advance_ne_malformed_of_openParen opens failed
  exact advance_eq_of_kind_ne_openParen notOpenParen limit2 limit state

/-- What is read under a limit is read under a higher one. -/
theorem advance_eq_ok_of_le {limit2 : Nat} (le : limit ≤ limit2)
    (read : advance limit state token = .ok next) : advance limit2 state token = .ok next :=
  advance_eq_ok_iff.mpr ((step_of_advance read).of_le le)

theorem run_eq_ok_of_le {limit2 : Nat} (le : limit ≤ limit2) {tokens : List Token}
    (read : run limit state tokens = .ok next) : run limit2 state tokens = .ok next := by
  induction tokens generalizing state with
  | nil => exact read
  | cons token rest ih =>
      obtain ⟨middle, first, read⟩ := run_cons_eq_ok_iff.mp read
      exact run_cons_eq_ok_iff.mpr ⟨middle, advance_eq_ok_of_le le first, ih read⟩

end Step

/-! ## Where a run stops -/

/-- A run that fails does so at a token, in the state that the tokens before it lead to. -/
theorem exists_advance_of_run_eq_error {limit : Nat} {state : State} {tokens : List Token}
    {failure : ReadFailure} (failed : run limit state tokens = .error failure) :
    ∃ before token after middle, tokens = before ++ token :: after ∧
      run limit state before = .ok middle ∧ advance limit middle token = .error failure := by
  induction tokens generalizing state with
  | nil => cases failed
  | cons token rest ih =>
      rw [run] at failed
      split at failed
      · rename_i refused
        cases failed
        exact ⟨[], token, rest, state, rfl, rfl, refused⟩
      · rename_i next first
        obtain ⟨before, refused, after, middle, rfl, ran, stops⟩ := ih failed
        have whole := (run_cons_of_ok first).trans ran
        exact ⟨token :: before, refused, after, middle, rfl, whole, stops⟩

/-- How reading a text of `size` bytes comes to a finding. -/
inductive Finds (limit size : Nat) (tokens : List Token) (diagnostic : Diagnostic) : Prop where
  /-- A token is refused where the tokens before it lead. -/
  | refused {before after : List Token} {token : Token} {state : State}
      {operands : List Pattern} (tokens_eq : tokens = before ++ token :: after)
      (ran : run limit initial before = .ok state)
      (failed : advance limit state token = .error ⟨operands, .malformed [diagnostic]⟩)
      (refuses : Refuses token state diagnostic)
  /-- All tokens are read and lead where the text must not end. -/
  | unfinished {state : State} {operands : List Pattern}
      (ran : run limit initial tokens = .ok state)
      (failed : finish size state = .error ⟨operands, .malformed [diagnostic]⟩)
      (unfinished : Unfinished size state diagnostic)

/-- Reading comes to one finding. -/
theorem finds_of_read {limit : Nat} {source : String} {operands : List Pattern}
    {diagnostics : List Diagnostic}
    (failed : Pattern.read limit source = .error ⟨operands, .malformed diagnostics⟩) :
    ∃ diagnostic, diagnostics = [diagnostic] ∧
      Finds limit source.utf8ByteSize (Token.scanVisible source) diagnostic := by
  -- No finding is made in front of the one that ends the reading.
  have noneBefore {tokens : List Token} {state : State}
      (ran : run limit initial tokens = .ok state) : state.findings = [] := findings_of_run ran
  unfold Pattern.read at failed
  split at failed
  · rename_i stopped
    cases failed
    obtain ⟨before, token, after, state, tokens_eq, ran, refused⟩ :=
      exists_advance_of_run_eq_error stopped
    have tokenMem : token ∈ Token.scanVisible source := by simp [tokens_eq]
    obtain ⟨diagnostic, rfl, refuses⟩ :=
      refuses_of_advance (Token.kind_ne_blank_of_mem_scanVisible tokenMem) refused
    rw [noneBefore ran, List.nil_append] at refused ⊢
    exact ⟨diagnostic, rfl, .refused tokens_eq ran refused refuses⟩
  · rename_i ran
    obtain ⟨diagnostic, rfl, unfinished⟩ := unfinished_of_finish failed
    rw [noneBefore ran, List.nil_append] at failed ⊢
    exact ⟨diagnostic, rfl, .unfinished ran failed unfinished⟩

/-- What is found under one limit is found under a higher one. -/
theorem Finds.exists_read_eq {limit limit2 : Nat} {source : String} {diagnostic : Diagnostic}
    (finds : Finds limit source.utf8ByteSize (Token.scanVisible source) diagnostic)
    (le : limit ≤ limit2) :
    ∃ operands, Pattern.read limit2 source = .error ⟨operands, .malformed [diagnostic]⟩ := by
  cases finds with
  | refused tokens_eq ran failed _ =>
      rw [Pattern.read, tokens_eq, run_append_of_ok (run_eq_ok_of_le le ran), run,
        advance_eq_of_malformed failed]
      exact ⟨_, rfl⟩
  | unfinished ran failed _ =>
      rw [Pattern.read, run_eq_ok_of_le le ran]
      exact ⟨_, failed⟩

/-- A text has one finding at most. -/
theorem Finds.unique {limit limit2 : Nat} {source : String} {diagnostic diagnostic2 : Diagnostic}
    (finds : Finds limit source.utf8ByteSize (Token.scanVisible source) diagnostic)
    (finds2 : Finds limit2 source.utf8ByteSize (Token.scanVisible source) diagnostic2) :
    diagnostic2 = diagnostic := by
  obtain ⟨operands, failed⟩ := finds.exists_read_eq (Nat.le_max_left limit limit2)
  obtain ⟨operands2, failed2⟩ := finds2.exists_read_eq (Nat.le_max_right limit limit2)
  rw [failed] at failed2
  cases failed2
  rfl

end Reader

end ByteSignature
