/-!
# Ranges of characters

Properties of characters are given as lists of ranges of code points, both ends
included.
-/

namespace ByteSignature.Text

/-- The code point of a character lies in one of some ranges. -/
def inRanges (ranges : Array (Nat × Nat)) (character : Char) : Bool :=
  ranges.any fun range => range.1 ≤ character.toNat && character.toNat ≤ range.2

end ByteSignature.Text
