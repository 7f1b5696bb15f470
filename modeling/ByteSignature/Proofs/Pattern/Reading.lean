import ByteSignature.Pattern.Reader
import ByteSignature.Proofs.Pattern.Token

/-!
# The reader follows the grammar

Reading succeeds exactly on the texts whose visible characters are an expression and
whose groups are nested within the limit, and it returns the pattern that the text
spells.  Hence no text spells two patterns.

Both directions speak about one token at a time, and what a token that is read does to a
state is said once.  A state of the reader covers the text read so far: every open group,
and the position in the innermost one, accounts for a piece of it.  Conversely the tokens
of a derivation take the reader from where an operand may start to where it is complete,
with the same groups open.
-/

namespace ByteSignature

/-! ## What the reader has covered -/

namespace Reader

open Pattern

/-- The operand that waits, with its sign, accounts for a text. -/
inductive Awaits : Option Pending → List Char → Prop where
  | nothing : Awaits none []
  | operand {text : List Char} {pattern : Pattern} (join : Join)
      (expression : Spells .expression text pattern) :
      Awaits (some ⟨pattern, join⟩) (text ++ join.sign)

/-- The position accounts for the text of the innermost open group. -/
inductive Holds : Position → List Char → Prop where
  | opening : Holds .opening []
  | afterPipe {left : Pattern} {text : List Char}
      (waits : Awaits (some ⟨left, .alternate⟩) text) : Holds (.afterPipe left) text
  | afterPrimary {pending : Option Pending} {term : Pattern} {before text : List Char}
      (waits : Awaits pending before) (primary : Spells .primary text term) :
      Holds (.afterPrimary pending term) (before ++ text)
  | afterRepetition {pending : Option Pending} {term : Pattern} {before text : List Char}
      (waits : Awaits pending before) (repeated : Spells .term text term) :
      Holds (.afterRepetition pending term) (before ++ text)

/-- The open groups account for the text up to the innermost opening parenthesis. -/
inductive Opened : List Level → List Char → Prop where
  | outermost : Opened [] []
  | group {levels : List Level} {before inner : List Char} {pending : Option Pending}
      (paren : Token) (outer : Opened levels before) (waits : Awaits pending inner) :
      Opened (⟨paren, pending⟩ :: levels) (before ++ inner ++ ['('])

/-- The state accounts for everything read so far. -/
def Covers (state : State) (text : List Char) : Prop :=
  ∃ before inner, text = before ++ inner ∧ Opened state.levels before ∧
    Holds state.position inner

theorem covers_initial : Covers initial [] :=
  ⟨[], [], rfl, .outermost, .opening⟩

theorem Awaits.complete {pending : Option Pending} {before text : List Char}
    {term : Pattern} (waits : Awaits pending before) (spells : Spells .term text term) :
    Spells .expression (before ++ text) (complete pending term) := by
  cases waits with
  | nothing => exact .first spells
  | operand join expression => exact .joined join expression spells

theorem Awaits.count_eq {pending : Option Pending} {text : List Char}
    (waits : Awaits pending text) : text.count '(' = text.count ')' := by
  cases waits with
  | nothing => rfl
  | operand join expression => cases join <;> simp [Join.sign, expression.count_eq]

theorem Opened.count_eq {levels : List Level} {text : List Char}
    (opened : Opened levels text) :
    text.count '(' = text.count ')' + levels.length := by
  induction opened with
  | outermost => rfl
  | group paren outer waits ih =>
      have balanced := waits.count_eq
      simp only [List.count_append, List.count_cons_self, List.count_nil, List.length_cons,
        List.count_singleton]
      simp only [Char.reduceBEq, Bool.false_eq_true, if_false]
      omega

theorem Holds.count_eq {position : Position} {text : List Char}
    (holds : Holds position text) : text.count '(' = text.count ')' := by
  cases holds with
  | opening => rfl
  | afterPipe waits => exact waits.count_eq
  | afterPrimary waits primary =>
      rw [List.count_append, List.count_append, waits.count_eq, primary.count_eq]
  | afterRepetition waits repeated =>
      rw [List.count_append, List.count_append, waits.count_eq, repeated.count_eq]

theorem Covers.count_eq {state : State} {text : List Char} (covers : Covers state text) :
    text.count '(' = text.count ')' + state.levels.length := by
  rcases covers with ⟨before, inner, rfl, opened, holds⟩
  rw [List.count_append, List.count_append, opened.count_eq, holds.count_eq]
  omega

/-! ## One token -/

/-- In this position the innermost group holds the given expression, to which operators
may be applied. -/
inductive Completes : Position → Pattern → Prop where
  | afterPrimary (pending : Option Pending) (term : Pattern) :
      Completes (.afterPrimary pending term) (complete pending term)
  | afterRepetition (pending : Option Pending) (term : Pattern) :
      Completes (.afterRepetition pending term) (complete pending term)

/-- In this position an operand may start, and this is what waits for it. -/
inductive StartsOperand : Position → Option Pending → Prop where
  | opening : StartsOperand .opening none
  | afterPipe (left : Pattern) : StartsOperand (.afterPipe left) (some ⟨left, .alternate⟩)
  | juxtaposed {position : Position} {expression : Pattern}
      (completes : Completes position expression) :
      StartsOperand position (some ⟨expression, .concat⟩)

/-- What a token that is read does to a state. -/
inductive Step (limit : Nat) (token : Token) : State → State → Prop where
  /-- A symbol is an operand. -/
  | symbol {position : Position} {pending : Option Pending} {levels : List Level}
      {findings : List Diagnostic} (isSymbol : token.kind = .symbol)
      (starts : StartsOperand position pending) :
      Step limit token ⟨position, levels, findings⟩
        ⟨.afterPrimary pending (.symbol (symbolOf token)), levels, findings⟩
  /-- A group is opened within the limit. -/
  | opens {position : Position} {pending : Option Pending} {levels : List Level}
      {findings : List Diagnostic} (opens : token.kind = .openParen)
      (room : levels.length < limit) (starts : StartsOperand position pending) :
      Step limit token ⟨position, levels, findings⟩
        ⟨.opening, ⟨token, pending⟩ :: levels, findings⟩
  /-- An alternative to all of the group begins. -/
  | pipe {position : Position} {expression : Pattern} {levels : List Level}
      {findings : List Diagnostic} (isPipe : token.kind = .pipe)
      (completes : Completes position expression) :
      Step limit token ⟨position, levels, findings⟩ ⟨.afterPipe expression, levels, findings⟩
  /-- A primary is repeated. -/
  | repeats {pending : Option Pending} {term : Pattern} {repetition : Repetition}
      {levels : List Level} {findings : List Diagnostic}
      (isSign : repetition? token = some repetition) :
      Step limit token ⟨.afterPrimary pending term, levels, findings⟩
        ⟨.afterRepetition pending (repetition.apply term), levels, findings⟩
  /-- The innermost group is closed, and is a primary. -/
  | closes {position : Position} {expression : Pattern} {level : Level} {outer : List Level}
      {findings : List Diagnostic} (closes : token.kind = .closeParen)
      (completes : Completes position expression) :
      Step limit token ⟨position, level :: outer, findings⟩
        ⟨.afterPrimary level.pending expression, outer, findings⟩

section Step

variable {limit : Nat} {levels : List Level} {findings : List Diagnostic} {token : Token}
  {character : Char} {position : Position} {pending : Option Pending} {expression : Pattern}
  {state next : State}

theorem isRepetition_of_repetition? {repetition : Repetition}
    (read : repetition? token = some repetition) : token.kind.isRepetition = true := by
  unfold repetition? at read
  split at read
  case h_4 => cases read
  all_goals
    rename_i kind
    rw [kind]
    rfl

theorem isRepetition_of_repetition?_eq_none (read : repetition? token = none) :
    token.kind.isRepetition = false := by
  unfold repetition? at read
  cases kind : token.kind <;> simp_all [TokenKind.isRepetition]

/-- An operator other than a repetition applies to the completed expression. -/
theorem Completes.advance_eq (completes : Completes position expression) (limit : Nat)
    (levels : List Level) (findings : List Diagnostic)
    (noRepetition : token.kind.isRepetition = false) :
    advance limit ⟨position, levels, findings⟩ token =
      readOperator limit findings levels expression token := by
  have read : repetition? token = none := by
    cases kind : token.kind <;> simp_all [repetition?, TokenKind.isRepetition]
  cases completes <;> simp only [advance, read]

theorem StartsOperand.advance_eq (starts : StartsOperand position pending) (limit : Nat)
    (levels : List Level) (findings : List Diagnostic)
    (kind : token.kind = .symbol ∨ token.kind = .openParen) :
    advance limit ⟨position, levels, findings⟩ token =
      readOperand limit findings levels pending token := by
  cases starts with
  | opening => rcases kind with kind | kind <;> cases levels <;> simp only [advance, kind]
  | afterPipe left => rfl
  | juxtaposed completes =>
      have noRepetition : token.kind.isRepetition = false := by
        rcases kind with kind | kind <;> rw [kind] <;> rfl
      have notPipe : token.kind ≠ .pipe := by
        rcases kind with kind | kind <;> rw [kind] <;> decide
      have continues : token.kind.startsTerm = true := by
        rcases kind with kind | kind <;> rw [kind] <;> rfl
      rw [completes.advance_eq limit levels findings noRepetition, readOperator,
        if_neg notPipe, if_pos continues]

theorem step_of_readOperand (starts : StartsOperand position pending)
    (read : readOperand limit findings levels pending token = .ok next) :
    Step limit token ⟨position, levels, findings⟩ next := by
  unfold readOperand at read
  split at read
  · rename_i isSymbol
    cases read
    exact .symbol isSymbol starts
  · rename_i opens
    split at read
    · rename_i room
      cases read
      exact .opens opens room starts
    · cases read
  · cases read

theorem step_of_leaveExpression (completes : Completes position expression)
    (read : leaveExpression findings levels expression token = .ok next) :
    Step limit token ⟨position, levels, findings⟩ next := by
  cases levels with
  | nil =>
      simp only [leaveExpression] at read
      split at read <;> cases read
  | cons level outer =>
      simp only [leaveExpression] at read
      split at read
      · rename_i closes
        cases read
        exact .closes closes completes
      · cases read

theorem step_of_readOperator (completes : Completes position expression)
    (read : readOperator limit findings levels expression token = .ok next) :
    Step limit token ⟨position, levels, findings⟩ next := by
  unfold readOperator at read
  split at read
  · rename_i isPipe
    cases read
    exact .pipe isPipe completes
  · split at read
    · exact step_of_readOperand (.juxtaposed completes) read
    · exact step_of_leaveExpression completes read

theorem step_of_advance (read : advance limit state token = .ok next) :
    Step limit token state next := by
  rcases state with ⟨position, levels, findings⟩
  cases position with
  | opening =>
      simp only [advance] at read
      split at read
      · cases read
      · exact step_of_readOperand .opening read
  | afterPipe left => exact step_of_readOperand (.afterPipe left) read
  | afterPrimary pending term =>
      simp only [advance] at read
      split at read
      · rename_i isSign
        cases read
        exact .repeats isSign
      · exact step_of_readOperator (.afterPrimary pending term) read
  | afterRepetition pending term =>
      simp only [advance] at read
      split at read
      · cases read
      · exact step_of_readOperator (.afterRepetition pending term) read

/-- A token is read exactly when there is a step for it. -/
theorem advance_eq_ok_iff : advance limit state token = .ok next ↔ Step limit token state next := by
  constructor
  · exact step_of_advance
  · intro step
    cases step with
    | symbol isSymbol starts =>
        rw [starts.advance_eq limit _ _ (.inl isSymbol)]
        simp only [readOperand, isSymbol]
    | opens opens room starts =>
        rw [starts.advance_eq limit _ _ (.inr opens)]
        simp only [readOperand, opens, if_pos room]
    | pipe isPipe completes =>
        rw [completes.advance_eq limit _ _ (by rw [isPipe]; rfl), readOperator, if_pos isPipe]
    | repeats isSign => simp only [advance, isSign]
    | closes closes completes =>
        rw [completes.advance_eq limit _ _ (by rw [closes]; rfl), readOperator,
          if_neg (by simp [closes]), if_neg (by rw [closes]; decide)]
        exact if_pos closes

/-- A higher limit leaves all steps. -/
theorem Step.of_le {limit2 : Nat} (le : limit ≤ limit2) (step : Step limit token state next) :
    Step limit2 token state next := by
  cases step with
  | symbol isSymbol starts => exact .symbol isSymbol starts
  | opens opens room starts => exact .opens opens (Nat.lt_of_lt_of_le room le) starts
  | pipe isPipe completes => exact .pipe isPipe completes
  | repeats isSign => exact .repeats isSign
  | closes closes completes => exact .closes closes completes

/-- Garbage is never read. -/
theorem advance_ne_ok_of_garbage (kind : token.kind = .garbage) :
    advance limit state token ≠ .ok next := by
  intro read
  cases step_of_advance read with
  | repeats isSign =>
      have repeats := isRepetition_of_repetition? isSign
      rw [kind] at repeats
      cases repeats
  | symbol isKind | opens isKind | pipe isKind | closes isKind =>
      rw [kind] at isKind
      cases isKind

/-! ## What a step covers -/

theorem symbolOf_eq (isCharacter : token.IsCharacter character) :
    symbolOf token = character.toNat.toUInt8 := by
  rw [symbolOf, isCharacter.2]

theorem sign_of_repetition? {repetition : Repetition}
    (isCharacter : token.IsCharacter character)
    (read : repetition? token = some repetition) : character = repetition.sign := by
  have kind := isCharacter.1
  unfold repetition? at read
  unfold TokenKind.ofChar at kind
  split at kind
  · simp [kind] at read
  · split at kind <;> simp_all [Repetition.sign] <;> subst read <;> rfl

/-- The text of a completed group is an expression. -/
theorem Completes.spells {inner : List Char} (completes : Completes position expression)
    (holds : Holds position inner) : Spells .expression inner expression := by
  cases completes with
  | afterPrimary =>
      cases holds with
      | afterPrimary waits primary => exact waits.complete (.single primary)
  | afterRepetition =>
      cases holds with
      | afterRepetition waits repeated => exact waits.complete repeated

/-- What waits accounts for the text of the group. -/
theorem StartsOperand.awaits {inner : List Char} (starts : StartsOperand position pending)
    (holds : Holds position inner) : Awaits pending inner := by
  cases starts with
  | opening =>
      cases holds
      exact .nothing
  | afterPipe =>
      cases holds with
      | afterPipe waits => exact waits
  | juxtaposed completes =>
      have waits := Awaits.operand .concat (completes.spells holds)
      rwa [Join.sign, List.append_nil] at waits

/-- Every step extends what is covered by its character. -/
theorem Covers.step {text : List Char} (covers : Covers state text)
    (isCharacter : token.IsCharacter character) (step : Step limit token state next) :
    Covers next (text ++ [character]) := by
  obtain ⟨before, inner, rfl, opened, holds⟩ := covers
  have kind := isCharacter.1
  rw [List.append_assoc]
  cases step with
  | symbol isSymbol starts =>
      have alphanumeric := TokenKind.ofChar_eq_symbol_iff.mp (kind.symm.trans isSymbol)
      refine ⟨before, inner ++ [character], rfl, opened, ?_⟩
      rw [symbolOf_eq isCharacter]
      exact .afterPrimary (starts.awaits holds) (.symbol alphanumeric)
  | opens opens _ starts =>
      obtain rfl := TokenKind.ofChar_eq_openParen_iff.mp (kind.symm.trans opens)
      refine ⟨before ++ inner ++ ['('], [], ?_, .group token opened (starts.awaits holds), .opening⟩
      rw [List.append_nil, List.append_assoc]
  | pipe isPipe completes =>
      obtain rfl := TokenKind.ofChar_eq_pipe_iff.mp (kind.symm.trans isPipe)
      exact ⟨before, inner ++ ['|'], rfl, opened,
        .afterPipe (.operand .alternate (completes.spells holds))⟩
  | repeats isSign =>
      obtain rfl := sign_of_repetition? isCharacter isSign
      refine ⟨before, _, rfl, opened, ?_⟩
      cases holds with
      | afterPrimary waits primary =>
          rw [List.append_assoc]
          exact .afterRepetition waits (.repeated _ primary)
  | closes closes completes =>
      obtain rfl := TokenKind.ofChar_eq_closeParen_iff.mp (kind.symm.trans closes)
      cases opened with
      | @group _ before waiting _ _ opened waits =>
          refine ⟨before, waiting ++ '(' :: (inner ++ [')']), by simp, opened, ?_⟩
          exact .afterPrimary waits (.group (completes.spells holds))

/-- Groups are opened within the limit. -/
theorem Step.length_le (step : Step limit token state next)
    (bound : state.levels.length ≤ limit) : next.levels.length ≤ limit := by
  cases step with
  | symbol | pipe | repeats => exact bound
  | opens _ room => exact room
  | closes => exact Nat.le_of_succ_le bound

end Step

/-! ## Runs in two parts -/

theorem run_cons_of_ok {limit : Nat} {state middle : State} {token : Token}
    {rest : List Token} (read : advance limit state token = .ok middle) :
    run limit state (token :: rest) = run limit middle rest := by
  rw [run, read]

/-- A run succeeds when its first token is read and the others are read behind it. -/
theorem run_cons_eq_ok_iff {limit : Nat} {state next : State} {token : Token}
    {rest : List Token} :
    run limit state (token :: rest) = .ok next ↔
      ∃ middle, advance limit state token = .ok middle ∧ run limit middle rest = .ok next := by
  constructor
  · intro ran
    rw [run] at ran
    split at ran
    · cases ran
    · rename_i middle first
      exact ⟨middle, first, ran⟩
  · rintro ⟨middle, first, ran⟩
    rwa [run_cons_of_ok first]

theorem run_append_of_ok {limit : Nat} {state middle : State} {first second : List Token}
    (read : run limit state first = .ok middle) :
    run limit state (first ++ second) = run limit middle second := by
  rw [run_append, read]

/-! ## Reading is sound -/

theorem covers_of_run {limit : Nat} {tokens : List Token} {characters : List Char}
    {state next : State} {text : List Char}
    (areCharacters : List.Forall₂ Token.IsCharacter tokens characters)
    (covers : Covers state text) (bound : state.levels.length ≤ limit)
    (nested : Nested limit text) (read : run limit state tokens = .ok next) :
    Covers next (text ++ characters) ∧ Nested limit (text ++ characters) := by
  induction areCharacters generalizing state text with
  | nil =>
      cases read
      rw [List.append_nil]
      exact ⟨covers, nested⟩
  | @cons token character rest restCharacters isCharacter _ ih =>
      obtain ⟨middle, first, read⟩ := run_cons_eq_ok_iff.mp read
      have step := step_of_advance first
      have middleCovers := covers.step isCharacter step
      have middleBound := step.length_le bound
      have middleNested : Nested limit (text ++ [character]) := by
        apply nested_append_singleton nested
        rw [middleCovers.count_eq]
        omega
      have result := ih middleCovers middleBound middleNested read
      rwa [List.append_assoc] at result

theorem kind_ne_garbage_of_run {limit : Nat} {tokens : List Token} {state next : State}
    (read : run limit state tokens = .ok next) :
    ∀ token ∈ tokens, token.kind ≠ .garbage := by
  induction tokens generalizing state with
  | nil => simp
  | cons token rest ih =>
      obtain ⟨middle, first, read⟩ := run_cons_eq_ok_iff.mp read
      intro other otherMem
      rcases List.mem_cons.mp otherMem with rfl | otherMem
      · intro garbage
        exact advance_ne_ok_of_garbage garbage first
      · exact ih read other otherMem

theorem spells_of_finish {size : Nat} {state : State} {text : List Char} {pattern : Pattern}
    (covers : Covers state text) (finished : finish size state = .ok pattern) :
    Spells .expression text pattern := by
  rcases state with ⟨position, levels, findings⟩
  rcases covers with ⟨before, inner, rfl, opened, holds⟩
  have complete : ∀ expression, Spells .expression inner expression →
      finishExpression findings levels expression = .ok pattern →
      Spells .expression (before ++ inner) pattern := by
    intro expression spells finished
    cases opened with
    | outermost =>
        cases finished
        exact spells
    | group paren outer waits => cases finished
  cases holds with
  | opening => cases opened <;> cases finished
  | afterPipe waits => cases finished
  | afterPrimary waits primary =>
      exact complete _ (waits.complete (.single primary)) finished
  | afterRepetition waits repeated => exact complete _ (waits.complete repeated) finished

/-! ## Reading is complete -/

theorem Completes.finish_eq {position : Position} {expression : Pattern}
    (completes : Completes position expression) (size : Nat) (findings : List Diagnostic) :
    finish size ⟨position, [], findings⟩ = .ok expression := by
  cases completes <;> rfl

/-- What the tokens of a derived text do to the reader, by the part of the grammar.  A
primary or a term is joined to what waits; an expression is read in a fresh group. -/
def Reads (limit : Nat) (findings : List Diagnostic) (text : List Char) (pattern : Pattern)
    (tokens : List Token) : Part → Prop
  | .primary => ∀ position pending levels, StartsOperand position pending →
      Nested (limit - levels.length) text →
        run limit ⟨position, levels, findings⟩ tokens =
          .ok ⟨.afterPrimary pending pattern, levels, findings⟩
  | .term => ∀ position pending levels, StartsOperand position pending →
      Nested (limit - levels.length) text →
        ∃ next, Completes next (complete pending pattern) ∧
          run limit ⟨position, levels, findings⟩ tokens = .ok ⟨next, levels, findings⟩
  | .expression => ∀ levels, Nested (limit - levels.length) text →
      ∃ next, Completes next pattern ∧
        run limit ⟨.opening, levels, findings⟩ tokens = .ok ⟨next, levels, findings⟩

/-- Tokens of two texts in a row are tokens of the one and then of the other. -/
theorem exists_append_of_forall₂_append {tokens : List Token} {first second : List Char}
    (areCharacters : List.Forall₂ Token.IsCharacter tokens (first ++ second)) :
    ∃ tokens1 tokens2, tokens = tokens1 ++ tokens2 ∧
      List.Forall₂ Token.IsCharacter tokens1 first ∧
      List.Forall₂ Token.IsCharacter tokens2 second :=
  ⟨_, _, (List.take_append_drop first.length tokens).symm,
    List.forall₂_take_append _ _ _ areCharacters,
    List.forall₂_drop_append _ _ _ areCharacters⟩

theorem exists_eq_of_forall₂_singleton {tokens : List Token} {character : Char}
    (areCharacters : List.Forall₂ Token.IsCharacter tokens [character]) :
    ∃ token, tokens = [token] ∧ token.IsCharacter character := by
  cases areCharacters with
  | @cons token _ rest _ isCharacter restCharacters =>
      cases restCharacters
      exact ⟨token, rfl, isCharacter⟩

theorem repetition?_of_isCharacter {token : Token} {repetition : Repetition}
    (isCharacter : token.IsCharacter repetition.sign) :
    repetition? token = some repetition := by
  cases repetition <;> rw [repetition?, isCharacter.1] <;> rfl

/-- Behind an expression and the sign of a join, the next operand starts. -/
theorem Completes.exists_startsOperand {position : Position} {expression : Pattern}
    (completes : Completes position expression) (limit : Nat) (levels : List Level)
    (findings : List Diagnostic) {join : Join} {sign : List Token}
    (signCharacters : List.Forall₂ Token.IsCharacter sign join.sign) :
    ∃ next, StartsOperand next (some ⟨expression, join⟩) ∧
      run limit ⟨position, levels, findings⟩ sign = .ok ⟨next, levels, findings⟩ := by
  cases join with
  | concat =>
      cases signCharacters
      exact ⟨position, .juxtaposed completes, rfl⟩
  | alternate =>
      obtain ⟨token, rfl, isCharacter⟩ := exists_eq_of_forall₂_singleton signCharacters
      have kind : token.kind = .pipe := isCharacter.1
      refine ⟨_, .afterPipe expression, ?_⟩
      exact run_cons_of_ok (advance_eq_ok_iff.mpr (.pipe kind completes))

/-- The tokens of a derived text take the reader to where it is complete. -/
theorem reads_of_spells {limit : Nat} {findings : List Diagnostic} {part : Part}
    {text : List Char} {pattern : Pattern} (spells : Spells part text pattern)
    {tokens : List Token} (areCharacters : List.Forall₂ Token.IsCharacter tokens text) :
    Reads limit findings text pattern tokens part := by
  induction spells generalizing tokens with
  | symbol alphanumeric =>
      obtain ⟨token, rfl, isCharacter⟩ := exists_eq_of_forall₂_singleton areCharacters
      intro position pending levels starts _
      have kind : token.kind = .symbol := by
        rw [isCharacter.1, TokenKind.ofChar_eq_symbol_iff]
        exact alphanumeric
      rw [← symbolOf_eq isCharacter]
      exact run_cons_of_ok (advance_eq_ok_iff.mpr (.symbol kind starts))
  | group inner ih =>
      cases areCharacters with
      | @cons opening _ rest _ openingIs restCharacters =>
          obtain ⟨content, _, rfl, contentCharacters, closingCharacters⟩ :=
            exists_append_of_forall₂_append restCharacters
          obtain ⟨closing, rfl, closingIs⟩ := exists_eq_of_forall₂_singleton closingCharacters
          intro position pending levels starts nested
          have openKind : opening.kind = .openParen := openingIs.1
          have closeKind : closing.kind = .closeParen := closingIs.1
          have room : levels.length < limit := by
            have positive := nested.pos_of_group
            omega
          have opened : advance limit ⟨position, levels, findings⟩ opening =
              .ok ⟨.opening, ⟨opening, pending⟩ :: levels, findings⟩ :=
            advance_eq_ok_iff.mpr (.opens openKind room starts)
          obtain ⟨next, completes, read⟩ := ih contentCharacters (⟨opening, pending⟩ :: levels)
            nested.of_group.of_append
          rw [run_cons_of_ok opened, run_append_of_ok read]
          exact run_cons_of_ok (advance_eq_ok_iff.mpr (.closes closeKind completes))
  | single operand ih =>
      intro position pending levels starts nested
      exact ⟨_, .afterPrimary pending _, ih areCharacters _ _ _ starts nested⟩
  | repeated repetition operand ih =>
      obtain ⟨before, _, rfl, beforeCharacters, signCharacters⟩ :=
        exists_append_of_forall₂_append areCharacters
      obtain ⟨token, rfl, isCharacter⟩ := exists_eq_of_forall₂_singleton signCharacters
      intro position pending levels starts nested
      refine ⟨_, .afterRepetition pending _, ?_⟩
      rw [run_append_of_ok (ih beforeCharacters _ _ _ starts nested.of_append)]
      exact run_cons_of_ok
        (advance_eq_ok_iff.mpr (.repeats (repetition?_of_isCharacter isCharacter)))
  | first term ih =>
      intro levels nested
      exact ih areCharacters _ _ _ .opening nested
  | joined join expression term ihBefore ih =>
      obtain ⟨_, after, rfl, characters, afterCharacters⟩ :=
        exists_append_of_forall₂_append areCharacters
      obtain ⟨before, sign, rfl, beforeCharacters, signCharacters⟩ :=
        exists_append_of_forall₂_append characters
      intro levels nested
      obtain ⟨middle, completes, read⟩ := ihBefore beforeCharacters levels
        nested.of_append.of_append
      obtain ⟨position, starts, readSign⟩ := completes.exists_startsOperand limit levels findings
        signCharacters
      have balanced := (Awaits.operand join expression).count_eq
      obtain ⟨next, nextCompletes, readTerm⟩ := ih afterCharacters position _ levels starts
        (nested.of_append_right balanced)
      refine ⟨next, nextCompletes, ?_⟩
      rw [run_append_of_ok ((run_append_of_ok read).trans readSign), readTerm]

end Reader

namespace Pattern

/-- Reading accepts exactly the expressions whose groups are nested within the limit, and
returns what they spell. -/
theorem read_eq_ok_iff {limit : Nat} {source : String} {pattern : Pattern} :
    read limit source = .ok pattern ↔
      Spells .expression (visible source) pattern ∧ Nested limit (visible source) := by
  constructor
  · intro read
    unfold Pattern.read at read
    split at read
    · cases read
    · rename_i state ran
      have areCharacters := Token.forall₂_isCharacter_scanVisible
        (Reader.kind_ne_garbage_of_run ran)
      obtain ⟨covers, nested⟩ := Reader.covers_of_run areCharacters Reader.covers_initial
        (Nat.zero_le limit) (nested_nil limit) ran
      rw [List.nil_append] at covers nested
      exact ⟨Reader.spells_of_finish covers read, nested⟩
  · rintro ⟨spells, nested⟩
    obtain ⟨position, completes, ran⟩ := Reader.reads_of_spells spells
      spells.forall₂_isCharacter [] nested
    rw [Pattern.read, Reader.initial, ran]
    exact completes.finish_eq source.utf8ByteSize []

/-- No text spells two patterns. -/
theorem spells_unique {source : String} {first second : Pattern}
    (firstSpells : Spells .expression (visible source) first)
    (secondSpells : Spells .expression (visible source) second) : first = second := by
  have nested := nested_count (visible source)
  have firstRead := read_eq_ok_iff.mpr ⟨firstSpells, nested⟩
  have secondRead := read_eq_ok_iff.mpr ⟨secondSpells, nested⟩
  exact Except.ok.inj (firstRead.symm.trans secondRead)

/-- The language of a text that is read is that of the pattern read. -/
theorem languageOf_eq_of_read {limit : Nat} {source : String} {pattern : Pattern}
    (read : read limit source = .ok pattern) : languageOf source = pattern.language := by
  have spells := (read_eq_ok_iff.mp read).1
  ext input
  rw [mem_languageOf]
  constructor
  · rintro ⟨other, otherSpells, inputMem⟩
    rwa [spells_unique spells otherSpells]
  · intro inputMem
    exact ⟨pattern, spells, inputMem⟩

end Pattern

end ByteSignature
