/-!
# Diagnostics

A diagnostic says what is wrong with a pattern and where.  Kinds are ordered by how
much they explain: unbalanced parentheses first, then missing pieces, then pieces
that do not belong.
-/

namespace ByteSignature

/-- A range of byte offsets, from `start` up to but not including `stop`. -/
structure Span where
  start : Nat
  stop : Nat
  start_le_stop : start ≤ stop
  deriving DecidableEq, Repr

namespace Span

/-- The range between two offsets, when the first is not behind the second. -/
def between? (start stop : Nat) : Option Span :=
  if h : start ≤ stop then some ⟨start, stop, h⟩ else none

/-- The empty range at an offset. -/
def point (offset : Nat) : Span :=
  ⟨offset, offset, Nat.le_refl _⟩

/-- The smallest range that holds two ranges. -/
def cover (first second : Span) : Span where
  start := min first.start second.start
  stop := max first.stop second.stop
  start_le_stop := by
    have hfirst := first.start_le_stop
    omega

/-- The written form `start..stop`. -/
def format (span : Span) : String :=
  toString span.start ++ ".." ++ toString span.stop

end Span

/-- What can be wrong with a pattern, most explanatory first. -/
inductive DiagnosticKind where
  | unclosedGroup
  | unmatchedCloseParen
  | emptyPattern
  | expectedPrimary
  | emptyGroup
  | repeatedOperator
  | unexpectedCharacter
  | trailingInput
  deriving DecidableEq, Repr

namespace DiagnosticKind

/-- The position of a kind in the order of explanatory power. -/
def rank : DiagnosticKind → Nat
  | unclosedGroup => 0
  | unmatchedCloseParen => 1
  | emptyPattern => 2
  | expectedPrimary => 3
  | emptyGroup => 4
  | repeatedOperator => 5
  | unexpectedCharacter => 6
  | trailingInput => 7

/-- The message of a diagnostic that brings none of its own. -/
def defaultMessage : DiagnosticKind → String
  | unclosedGroup => "missing closing `)`"
  | unmatchedCloseParen => "unmatched `)`"
  | emptyPattern => "pattern is empty"
  | expectedPrimary => "expected a symbol or `(`"
  | emptyGroup => "empty `()` is not allowed"
  | repeatedOperator => "repeated postfix operator"
  | unexpectedCharacter => "unexpected character"
  | trailingInput => "unexpected input after pattern"

/-- The hints that every diagnostic of a kind starts with. -/
def defaultHints : DiagnosticKind → List String
  | unexpectedCharacter =>
      ["patterns use ASCII letters, digits, `|`, `*`, `+`, `?` and parentheses"]
  | repeatedOperator => ["wrap the operand in `(...)` to stack operators"]
  | emptyGroup => ["remove the group or put a symbol inside"]
  | _ => []

end DiagnosticKind

/-- One finding about a pattern. -/
structure Diagnostic where
  kind : DiagnosticKind
  span : Span
  message : String
  hints : List String
  deriving DecidableEq, Repr

namespace Diagnostic

/-- A finding with the message and hints of its kind. -/
def ofKind (kind : DiagnosticKind) (span : Span) : Diagnostic where
  kind := kind
  span := span
  message := kind.defaultMessage
  hints := kind.defaultHints

/-- The same finding in other words. -/
def withMessage (diagnostic : Diagnostic) (message : String) : Diagnostic :=
  { diagnostic with message }

/-- The same finding with a further hint behind the others. -/
def withHint (diagnostic : Diagnostic) (hint : String) : Diagnostic :=
  { diagnostic with hints := diagnostic.hints ++ [hint] }

/-- The written form of a finding when its pattern is not at hand. -/
def format (diagnostic : Diagnostic) : String :=
  "error at " ++ diagnostic.span.format ++ ": " ++ diagnostic.message ++
    String.join (diagnostic.hints.map fun hint => "\n  help: " ++ hint)

/-- The first finding outranks the second: its kind explains more, or the kinds are
equal and it starts earlier. -/
def outranks (first second : Diagnostic) : Bool :=
  first.kind.rank < second.kind.rank ||
    (first.kind.rank == second.kind.rank && first.span.start < second.span.start)

/-- The earliest listed finding among those that no other outranks. -/
def primary? : List Diagnostic → Option Diagnostic
  | [] => none
  | diagnostic :: later =>
      match primary? later with
      | none => some diagnostic
      | some best => if best.outranks diagnostic then some best else some diagnostic

/-- One line for a list of findings. -/
def summary (diagnostics : List Diagnostic) : String :=
  match primary? diagnostics with
  | none => "no diagnostics"
  | some diagnostic => diagnostic.message

/-- The findings below each other, without their pattern. -/
def formatAll (diagnostics : List Diagnostic) : String :=
  "\n".intercalate (diagnostics.map format)

@[simp]
theorem primary?_eq_none_iff {diagnostics : List Diagnostic} :
    primary? diagnostics = none ↔ diagnostics = [] := by
  cases diagnostics with
  | nil => simp [primary?]
  | cons diagnostic later =>
      simp only [primary?, reduceCtorEq, iff_false]
      split
      · simp
      · split <;> simp

end Diagnostic

end ByteSignature
