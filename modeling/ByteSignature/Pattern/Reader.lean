import ByteSignature.Pattern.Basic
import ByteSignature.Pattern.Diagnostic
import ByteSignature.Pattern.Token

/-!
# Reading patterns

The grammar of patterns, over the tokens that are not blank, is

    expression := term ( term | '|' term )*
    term       := primary ( '*' | '+' | '?' )?
    primary    := symbol | '(' expression ')'

and an expression folds to the left: every further term is joined to everything
read so far, so that `ab|cd` is `((ab)|c)d`.

The reader is a machine that takes one token at a time.  Its state is the current
position in the innermost open group together with the groups around it and with what
has been found wrong so far.  It stops at the first token that cannot continue any
pattern.  What has been completed by then is part of the failure, because building
automata goes on in step with reading and what it has built before the failure remains.
-/

namespace ByteSignature

/-- Why a text is not a pattern. -/
inductive ReadFault where
  /-- The text is outside the grammar, as these findings say. -/
  | malformed (findings : List Diagnostic)
  /-- Groups are nested deeper than the caller allows. -/
  | nestingTooDeep
  deriving DecidableEq, Repr

/-- A fault, and the operands completed before it, earliest first. -/
structure ReadFailure where
  operands : List Pattern
  fault : ReadFault
  deriving DecidableEq, Repr

namespace Reader

/-- A left operand that waits for the term behind its operator. -/
structure Pending where
  operand : Pattern
  join : Join
  deriving DecidableEq, Repr

/-- Join a completed term to what waits for it. -/
def complete (pending : Option Pending) (term : Pattern) : Pattern :=
  match pending with
  | none => term
  | some left => left.join.apply left.operand term

/-- A group that is still open: its parenthesis and what waits for the group. -/
structure Level where
  paren : Token
  pending : Option Pending
  deriving DecidableEq, Repr

/-- Where the reader stands in the innermost open group. -/
inductive Position where
  /-- Nothing of the group has been read. -/
  | opening
  /-- A pipe has been read behind this pattern, so a term must follow. -/
  | afterPipe (left : Pattern)
  /-- A primary has been read, and a repetition may follow it. -/
  | afterPrimary (pending : Option Pending) (term : Pattern)
  /-- A repetition has been read, and no second one may follow it. -/
  | afterRepetition (pending : Option Pending) (term : Pattern)
  deriving DecidableEq, Repr

/-- The position in the innermost group, the open groups from inside out, and what has been
found wrong, earliest first. -/
structure State where
  position : Position
  levels : List Level
  findings : List Diagnostic
  deriving DecidableEq, Repr

/-- The state in front of the first token. -/
def initial : State where
  position := .opening
  levels := []
  findings := []

/-- The operands that wait inside some open groups, earliest first. -/
def waiting (levels : List Level) : List Pattern :=
  levels.reverse.filterMap fun level => level.pending.map Pending.operand

/-- The failure of a reader whose innermost group holds the given operands. -/
def fail {α : Type} (levels : List Level) (inner : List Pattern) (fault : ReadFault) :
    Except ReadFailure α :=
  .error { operands := waiting levels ++ inner, fault }

/-- Report a finding behind those made before, and fail with all of them. -/
def report {α : Type} (findings : List Diagnostic) (levels : List Level)
    (inner : List Pattern) (finding : Diagnostic) : Except ReadFailure α :=
  fail levels inner (.malformed (findings ++ [finding]))

/-- The range of a token. -/
def spanOf (token : Token) : Span where
  start := token.start
  stop := token.stop
  start_le_stop := Nat.le_add_right _ _

/-- The finding that a token cannot stand where an operand is needed. -/
def operandMissing (token : Token) : Diagnostic :=
  let found := String.ofList token.text
  if token.kind == .garbage then
    (Diagnostic.ofKind .unexpectedCharacter (spanOf token)).withMessage
      ("unexpected `" ++ found ++ "`")
  else if token.kind.isRepetition then
    ((Diagnostic.ofKind .expectedPrimary (spanOf token)).withMessage
      ("`" ++ found ++ "` has nothing to repeat")).withHint
      "put a symbol or a group before the operator"
  else
    (Diagnostic.ofKind .expectedPrimary (spanOf token)).withMessage
      ("expected a symbol or `(`, found `" ++ found ++ "`")

/-- The finding that an operand is needed where the text ends. -/
def operandMissingAtEnd (size : Nat) : Diagnostic :=
  (Diagnostic.ofKind .expectedPrimary (Span.point size)).withMessage
    "expected a symbol or `(`, found end of pattern"

/-- The finding that a repetition follows another. -/
def operatorRepeated (token : Token) : Diagnostic :=
  (Diagnostic.ofKind .repeatedOperator (spanOf token)).withMessage
    ("`" ++ String.ofList token.text ++ "` cannot follow another postfix operator")

/-- The finding that a group is open where the text ends. -/
def groupUnclosed (paren : Token) : Diagnostic :=
  (Diagnostic.ofKind .unclosedGroup (spanOf paren)).withMessage
    "group opened here is never closed"

/-- The byte that a symbol token stands for. -/
def symbolOf (token : Token) : UInt8 :=
  match token.text with
  | character :: _ => character.toNat.toUInt8
  | [] => 0

/-- The repetition that an operator token stands for. -/
def repetition? (token : Token) : Option Repetition :=
  match token.kind with
  | .star => some .kleene
  | .plus => some .positive
  | .question => some .optional
  | _ => none

/-- Read the first token of a term: a symbol, or the parenthesis of a group.  At most
`limit` groups may be open at once. -/
def readOperand (limit : Nat) (findings : List Diagnostic) (levels : List Level)
    (pending : Option Pending) (token : Token) : Except ReadFailure State :=
  match token.kind with
  | .symbol => .ok ⟨.afterPrimary pending (.symbol (symbolOf token)), levels, findings⟩
  | .openParen =>
      if levels.length < limit then
        .ok ⟨.opening, ⟨token, pending⟩ :: levels, findings⟩
      else
        fail levels (pending.map Pending.operand).toList .nestingTooDeep
  | _ => report findings levels (pending.map Pending.operand).toList (operandMissing token)

/-- Leave the expression that the innermost group holds, at a token that does not continue
it.  In a group the token has to close it, and nothing may follow the whole pattern. -/
def leaveExpression (findings : List Diagnostic) (levels : List Level) (expression : Pattern)
    (token : Token) : Except ReadFailure State :=
  match levels with
  | level :: outer =>
      if token.kind = .closeParen then
        .ok ⟨.afterPrimary level.pending expression, outer, findings⟩
      else
        report findings levels [expression] (groupUnclosed level.paren)
  | [] =>
      if token.kind = .closeParen then
        report findings [] [expression] (.ofKind .unmatchedCloseParen (spanOf token))
      else
        report findings [] [expression] (.ofKind .trailingInput (spanOf token))

/-- Go on behind a term that the token does not repeat.  `expression` is everything
that the innermost group holds so far. -/
def readOperator (limit : Nat) (findings : List Diagnostic) (levels : List Level)
    (expression : Pattern) (token : Token) : Except ReadFailure State :=
  if token.kind = .pipe then
    .ok ⟨.afterPipe expression, levels, findings⟩
  else if token.kind.startsTerm then
    readOperand limit findings levels (some ⟨expression, .concat⟩) token
  else
    leaveExpression findings levels expression token

/-- Read one token. -/
def advance (limit : Nat) (state : State) (token : Token) : Except ReadFailure State :=
  let ⟨position, levels, findings⟩ := state
  match position with
  | .opening =>
      match levels, token.kind with
      | level :: _, .closeParen =>
          report findings levels []
            (.ofKind .emptyGroup ((spanOf level.paren).cover (spanOf token)))
      | _, _ => readOperand limit findings levels none token
  | .afterPipe left => readOperand limit findings levels (some ⟨left, .alternate⟩) token
  | .afterPrimary pending term =>
      match repetition? token with
      | some repetition =>
          .ok ⟨.afterRepetition pending (repetition.apply term), levels, findings⟩
      | none => readOperator limit findings levels (complete pending term) token
  | .afterRepetition pending term =>
      match repetition? token with
      | some _ =>
          report findings levels ((pending.map Pending.operand).toList ++ [term])
            (operatorRepeated token)
      | none => readOperator limit findings levels (complete pending term) token

/-- Finish behind a completed expression. -/
def finishExpression (findings : List Diagnostic) (levels : List Level)
    (expression : Pattern) : Except ReadFailure Pattern :=
  match levels with
  | [] => .ok expression
  | level :: _ => report findings levels [expression] (groupUnclosed level.paren)

/-- Finish at the end of a text of `size` bytes. -/
def finish (size : Nat) (state : State) : Except ReadFailure Pattern :=
  let ⟨position, levels, findings⟩ := state
  match position with
  | .opening =>
      match levels with
      | [] => report findings [] [] (.ofKind .emptyPattern ⟨0, size, Nat.zero_le _⟩)
      | _ :: _ => report findings levels [] (operandMissingAtEnd size)
  | .afterPipe left => report findings levels [left] (operandMissingAtEnd size)
  | .afterPrimary pending term | .afterRepetition pending term =>
      finishExpression findings levels (complete pending term)

/-- Read some tokens one after the other. -/
def run (limit : Nat) : State → List Token → Except ReadFailure State
  | state, [] => .ok state
  | state, token :: rest =>
      match advance limit state token with
      | .error failure => .error failure
      | .ok next => run limit next rest

@[simp]
theorem run_nil (limit : Nat) (state : State) : run limit state [] = .ok state :=
  rfl

theorem run_append (limit : Nat) (state : State) (first second : List Token) :
    run limit state (first ++ second) =
      match run limit state first with
      | .error failure => .error failure
      | .ok next => run limit next second := by
  induction first generalizing state with
  | nil => rfl
  | cons token rest ih =>
      simp only [List.cons_append, run]
      split
      · rfl
      · exact ih _

end Reader

/-- Read a pattern in which at most `limit` groups are nested. -/
def Pattern.read (limit : Nat) (source : String) : Except ReadFailure Pattern :=
  match Reader.run limit Reader.initial (Token.scanVisible source) with
  | .error failure => .error failure
  | .ok state => Reader.finish source.utf8ByteSize state

end ByteSignature
