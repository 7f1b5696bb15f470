import ByteSignature.Dfa.Subset
import ByteSignature.Nfa.Builder

/-!
# Compile options

What a caller can choose about compiling a signature.
-/

namespace ByteSignature

/-- Choices for one compile. -/
structure CompileOptions where
  /-- Inputs are matched as a whole and followed by the end marker. -/
  anchored : Bool
  /-- The automaton is made as small as possible. -/
  minimize : Bool
  /-- The accept flag of a pattern. -/
  patternId : UInt8
  /-- How deep groups may be nested. -/
  nestingLimit : Nat
  /-- How many states the nondeterministic automaton may have. -/
  nfaLimit : Nat
  /-- How many states the deterministic automaton and the table may have. -/
  dfaLimit : Nat
  dfaLimit_le : dfaLimit ≤ tableStateSpace
  deriving DecidableEq, Repr

namespace CompileOptions

/-- The nesting of groups that is allowed unless the caller says otherwise. -/
def defaultNestingLimit : Nat :=
  256

/-- The choices of a caller who makes none. -/
def default : CompileOptions where
  anchored := false
  minimize := true
  patternId := 1
  nestingLimit := defaultNestingLimit
  nfaLimit := Nfa.Builder.defaultLimit
  dfaLimit := Dfa.defaultLimit
  dfaLimit_le := Nat.le_refl _

instance : Inhabited CompileOptions :=
  ⟨default⟩

/-- Bound the deterministic automaton.  A bound beyond the states that a table can
number is lowered to their count. -/
def withDfaLimit (options : CompileOptions) (limit : Nat) : CompileOptions where
  anchored := options.anchored
  minimize := options.minimize
  patternId := options.patternId
  nestingLimit := options.nestingLimit
  nfaLimit := options.nfaLimit
  dfaLimit := min limit tableStateSpace
  dfaLimit_le := Nat.min_le_right _ _

end CompileOptions

end ByteSignature
