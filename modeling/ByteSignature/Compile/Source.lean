import ByteSignature.Compile.Error

/-!
# From pattern text to fragments

A pattern is built operand by operand, in the order in which its operands are completed
by reading.  When the text turns out to be no pattern, what was completed before is
built all the same, and a failure to build it comes first.
-/

namespace ByteSignature

open Nfa

/-- The fragment of a pattern. -/
def Pattern.build : Pattern → Build Fragment
  | .symbol byte => Build.symbol byte
  | .concat first second => do
      let first ← first.build
      let second ← second.build
      Build.concat first second
  | .alternate first second => do
      let first ← first.build
      let second ← second.build
      Build.alternate first second
  | .optional operand => do
      let operand ← operand.build
      Build.optional operand
  | .kleene operand => do
      let operand ← operand.build
      Build.kleene operand
  | .positive operand => do
      let operand ← operand.build
      Build.positive operand

/-- Build some patterns one after the other. -/
def Pattern.buildAll : List Pattern → Build Unit
  | [] => pure ()
  | pattern :: patterns => do
      let _ ← pattern.build
      Pattern.buildAll patterns

/-- Build the pattern that a text spells, with at most `nestingLimit` nested groups. -/
def buildSource (nestingLimit : Nat) (source : String) :
    EStateM CompileError Builder Fragment :=
  match Pattern.read nestingLimit source with
  | .ok pattern => pattern.build.adaptExcept CompileError.ofBuildFault
  | .error failure => do
      (Pattern.buildAll failure.operands).adaptExcept CompileError.ofBuildFault
      throw (.ofReadFault failure.fault)

end ByteSignature
