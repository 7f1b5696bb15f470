/-!
# Patterns

A pattern is a regular expression over bytes, built from single bytes by
juxtaposition, choice and three ways of repeating.
-/

namespace ByteSignature

/-- A regular expression over bytes. -/
inductive Pattern where
  /-- One given byte. -/
  | symbol (byte : UInt8)
  /-- The first followed by the second. -/
  | concat (first second : Pattern)
  /-- The first or the second. -/
  | alternate (first second : Pattern)
  /-- Nothing or the operand. -/
  | optional (operand : Pattern)
  /-- Any number of copies of the operand. -/
  | kleene (operand : Pattern)
  /-- At least one copy of the operand. -/
  | positive (operand : Pattern)
  deriving DecidableEq, Repr

/-- The operators that stand behind their operand. -/
inductive Repetition where
  | optional
  | kleene
  | positive
  deriving DecidableEq, Repr

/-- The operators that stand between two operands.  Juxtaposition is invisible. -/
inductive Join where
  | concat
  | alternate
  deriving DecidableEq, Repr

/-- The pattern that repeats another. -/
def Repetition.apply : Repetition → Pattern → Pattern
  | optional => .optional
  | kleene => .kleene
  | positive => .positive

/-- The pattern that joins two others. -/
def Join.apply : Join → Pattern → Pattern → Pattern
  | concat => .concat
  | alternate => .alternate

end ByteSignature
