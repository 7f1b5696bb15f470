import ByteSignature.Compile.Error

/-!
# Literal sets

A literal set is a list of byte strings, none of them empty.  The id of a literal is
its place in the list, counted from one, so there is room for 255 of them.
-/

namespace ByteSignature

/-- Literals in the order of their ids. -/
structure LiteralSet where
  literals : Array (List UInt8)
  ne_nil : ∀ literal ∈ literals, literal ≠ []
  size_le : literals.size ≤ 255
  deriving DecidableEq, Repr

namespace LiteralSet

/-- The number of literals that have ids. -/
def maxSize : Nat :=
  255

/-- The set without literals. -/
def empty : LiteralSet where
  literals := #[]
  ne_nil := by simp
  size_le := Nat.zero_le _

/-- The number of literals. -/
def size (set : LiteralSet) : Nat :=
  set.literals.size

/-- The literals as a list. -/
def toList (set : LiteralSet) : List (List UInt8) :=
  set.literals.toList

/-- Add a literal behind the others.  Its id is the size afterwards. -/
def push (set : LiteralSet) (literal : List UInt8) : Except CompileError LiteralSet :=
  if hliteral : literal = [] then
    .error (.invalidLiteral set.size .empty)
  else if hsize : set.literals.size < maxSize then
    .ok {
      literals := set.literals.push literal
      ne_nil := by
        intro other hother
        rcases Array.mem_push.mp hother with hother | rfl
        · exact set.ne_nil other hother
        · exact hliteral
      size_le := by
        rw [Array.size_push]
        exact hsize }
  else
    .error (.limit ⟨.patternIds, maxSize, set.size + 1⟩)

/-- Add literals from left to right, up to the first that is unfit. -/
def pushMany (set : LiteralSet) : List (List UInt8) → Except CompileError LiteralSet
  | [] => .ok set
  | literal :: literals =>
      match set.push literal with
      | .error error => .error error
      | .ok next => next.pushMany literals

/-- The set of some literals. -/
def ofList (literals : List (List UInt8)) : Except CompileError LiteralSet :=
  empty.pushMany literals

/-- The first literal that contains the end marker, counted from zero. -/
def markerIndex? (set : LiteralSet) : Option Nat :=
  set.toList.findIdx? fun literal => literal.contains endMarker

end LiteralSet

end ByteSignature
