import ByteSignature.Proofs.Compile.Diagnosis
import ByteSignature.Proofs.Compile.Source

/-!
# Findings at the first token that cannot stand

What the reader has read can always be continued to a pattern: an operand is supplied where one
must follow, and the open groups are closed.  A refused token, on the other hand, is refused
whatever follows it.  So a finding about a token is made at the first one that no pattern has at
its place, and a finding about the end of a text is made where more text could have helped.
-/

namespace ByteSignature

open Nfa Pattern Token

/-! ## What completes a text -/

namespace Reader

end Reader

/-! ## Texts that begin with some tokens -/

namespace Token

variable {source : String} {tokens : List Token}

end Token

/-! ## What a finding is about -/

namespace Diagnostic

/-- The finding is about the end of the text. -/
def AtEnd (diagnostic : Diagnostic) : Prop :=
  diagnostic.kind = .unclosedGroup ∨ diagnostic.kind = .emptyPattern ∨
    diagnostic.span.start = diagnostic.span.stop

instance (diagnostic : Diagnostic) : Decidable diagnostic.AtEnd :=
  inferInstanceAs (Decidable (_ ∨ _ ∨ _))

end Diagnostic

namespace Reader

variable {limit size : Nat} {source : String} {token : Token} {state : State}
  {diagnostic : Diagnostic}

theorem Unfinished.atEnd (unfinished : Unfinished size state diagnostic) : diagnostic.AtEnd := by
  cases unfinished with
  | nothing => exact .inr (.inl rfl)
  | operand => exact .inr (.inr rfl)
  | group => exact .inl rfl

end Reader

end ByteSignature
