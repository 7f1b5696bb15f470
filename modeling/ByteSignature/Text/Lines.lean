/-!
# Lines

Text is cut into lines at line feeds.  A carriage return belongs to the line break
when a line feed follows it, and a line break at the end of the text opens no further
line.  Literals in a file are cut in the same places, but there a carriage return is
dropped from the end of any line, and empty lines do not count.
-/

namespace ByteSignature.Text

/-- The lines of some text and whether a line feed stands in front of the first one's
end. -/
structure Lines where
  atBreak : Bool
  lines : List (List Char)

/-- Put a character to the left of some lines. -/
def Lines.prepend (character : Char) (found : Lines) : Lines :=
  if character = '\n' then
    ⟨true, [] :: found.lines⟩
  else if found.atBreak && character = '\r' then
    ⟨false, found.lines⟩
  else
    match found.lines with
    | [] => ⟨false, [[character]]⟩
    | line :: lines => ⟨false, (character :: line) :: lines⟩

/-- The lines of a text without their breaks. -/
def lines (text : List Char) : List (List Char) :=
  (text.foldr Lines.prepend ⟨false, []⟩).lines

/-- Put a byte to the left of some pieces, opening a new piece at a line feed. -/
def prependByte (byte : UInt8) : List (List UInt8) → List (List UInt8)
  | [] => if byte = 10 then [[], []] else [[byte]]
  | piece :: pieces => if byte = 10 then [] :: piece :: pieces else (byte :: piece) :: pieces

/-- A piece without a carriage return at its end. -/
def dropReturn (piece : List UInt8) : List UInt8 :=
  if piece.getLast? = some 13 then piece.dropLast else piece

/-- The lines of a file that are not empty, without their breaks. -/
def byteLines (bytes : List UInt8) : List (List UInt8) :=
  ((bytes.foldr prependByte [[]]).map dropReturn).filter fun line => !line.isEmpty

theorem ne_nil_of_mem_byteLines {bytes line : List UInt8} (h : line ∈ byteLines bytes) :
    line ≠ [] := by
  simp only [byteLines, List.mem_filter] at h
  simpa using h.2

end ByteSignature.Text
