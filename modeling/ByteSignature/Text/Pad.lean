/-!
# Padding

Text brought to a least width with spaces, counted in characters.
-/

namespace ByteSignature.Text

/-- `count` spaces. -/
def spaces (count : Nat) : String :=
  String.ofList (List.replicate count ' ')

/-- The text with spaces in front up to a width. -/
def padLeft (width : Nat) (text : String) : String :=
  spaces (width - text.length) ++ text

/-- The text with spaces behind up to a width. -/
def padRight (width : Nat) (text : String) : String :=
  text ++ spaces (width - text.length)

end ByteSignature.Text
