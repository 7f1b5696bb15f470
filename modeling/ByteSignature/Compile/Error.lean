import ByteSignature.Nfa.Builder
import ByteSignature.Pattern.Reader
import ByteSignature.Table.Basic

/-!
# Compile errors

Everything that can keep a signature from being compiled, and its one-line report.
-/

namespace ByteSignature

/-- What can be wrong with a literal. -/
inductive LiteralFault where
  /-- It has no bytes. -/
  | empty
  /-- It contains the end marker, and whole inputs are to be matched. -/
  | containsMarker
  deriving DecidableEq, Repr

/-- The report of what is wrong with a literal. -/
def LiteralFault.message : LiteralFault → String
  | empty => "empty literal"
  | containsMarker => "contains the end marker `#`"

/-- Why a signature was not compiled. -/
inductive CompileError where
  /-- The text is no pattern. -/
  | malformed (findings : List Diagnostic)
  /-- Groups are nested too deep. -/
  | nestingTooDeep
  /-- A bound of the caller was passed. -/
  | limit (excess : LimitExceeded)
  /-- A state of the nondeterministic automaton has no room for another edge. -/
  | edgesTaken (id : Nat)
  /-- A number belongs to no state of the nondeterministic automaton. -/
  | unknownState (id : Nat)
  /-- Zero is no pattern id. -/
  | patternIdZero
  /-- A literal, counted from zero, is unfit. -/
  | invalidLiteral (index : Nat) (fault : LiteralFault)
  /-- The table would have two entries for one state and byte. -/
  | duplicate (second : Table.Duplicate)
  deriving DecidableEq, Repr

namespace CompileError

/-- The error for a fault of reading. -/
def ofReadFault : ReadFault → CompileError
  | .malformed findings => .malformed findings
  | .nestingTooDeep => .nestingTooDeep

/-- The error for a fault of building. -/
def ofBuildFault : Nfa.BuildFault → CompileError
  | .limit excess => .limit excess
  | .edgesTaken id => .edgesTaken id
  | .unknownState id => .unknownState id

/-- The one-line report of an error. -/
def message : CompileError → String
  | malformed findings => "invalid pattern: " ++ Diagnostic.summary findings
  | nestingTooDeep => "recursion limit exceeded"
  | limit excess => excess.message
  | edgesTaken id => "NFA state " ++ toString id ++ " already has two transitions"
  | unknownState id => "NFA state " ++ toString id ++ " does not exist"
  | patternIdZero => "pattern id must be between 1 and 255"
  | invalidLiteral index fault =>
      "literal " ++ toString index ++ " is invalid: " ++ fault.message
  | duplicate second => second.message

end CompileError

end ByteSignature
