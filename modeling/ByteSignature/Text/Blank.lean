/-!
# Blanks

The characters with the Unicode property `White_Space`, and the three uses of it:
trimming text at both ends, trimming it at its end, and cutting it into the words
between blanks.
-/

namespace ByteSignature.Text

/-- The character has the property `White_Space`. -/
def isBlank (character : Char) : Bool :=
  let code := character.toNat
  (0x9 ≤ code && code ≤ 0xd) || code == 0x20 || code == 0x85 || code == 0xa0 ||
    code == 0x1680 || (0x2000 ≤ code && code ≤ 0x200a) || code == 0x2028 ||
    code == 0x2029 || code == 0x202f || code == 0x205f || code == 0x3000

/-- A text without the blanks at its end. -/
def trimEnd (text : List Char) : List Char :=
  (text.reverse.dropWhile isBlank).reverse

/-- A text without the blanks at its beginning and its end. -/
def trim (text : List Char) : List Char :=
  trimEnd (text.dropWhile isBlank)

/-- The words of a text and whether the next character to the left belongs to the
first of them. -/
structure Words where
  isOpen : Bool
  words : List (List Char)

/-- Put a character to the left of some words. -/
def Words.prepend (character : Char) (found : Words) : Words :=
  if isBlank character then
    ⟨false, found.words⟩
  else
    match found.isOpen, found.words with
    | true, word :: words => ⟨true, (character :: word) :: words⟩
    | _, words => ⟨true, [character] :: words⟩

/-- The words of a text, which are its longest pieces without blanks. -/
def words (text : List Char) : List (List Char) :=
  (text.foldr Words.prepend ⟨false, []⟩).words

end ByteSignature.Text
