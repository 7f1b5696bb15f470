import ByteSignature.Text.Blank
import ByteSignature.Text.Utf8
import ByteSignature.Text.Width

/-!
# Lines of a shown text

Offsets into a text are found again as a line and a place in it, counted in characters
and in columns of a terminal.  A tab fills four columns.  Characters that would disturb
a terminal are drawn as pictures of themselves, or not at all.
-/

namespace ByteSignature.Snippet

/-- A line of a text. -/
structure Line where
  number : Nat
  /-- The offset of the first byte. -/
  start : Nat
  text : List Char
  /-- The bytes of the line break behind the line. -/
  breakSize : Nat
  deriving DecidableEq, Repr

namespace Line

/-- The offset behind the text of a line. -/
def textStop (line : Line) : Nat :=
  line.start + Text.utf8Length line.text

/-- The offset behind a line and its line break. -/
def stop (line : Line) : Nat :=
  line.textStop + line.breakSize

end Line

/-- The line with the given characters, last first, which ends with a line feed. -/
def brokenLine (number start : Nat) : List Char → Line
  | '\r' :: found => ⟨number, start, found.reverse, 2⟩
  | found => ⟨number, start, found.reverse, 1⟩

/-- The lines of a text, of whose first line some characters have been read, last
first. -/
def linesFrom (number start : Nat) (found : List Char) : List Char → List Line
  | [] => if found.isEmpty then [] else [⟨number, start, found.reverse, 0⟩]
  | character :: rest =>
      if character = '\n' then
        let line := brokenLine number start found
        line :: linesFrom (number + 1) line.stop [] rest
      else
        linesFrom number start (character :: found) rest

/-- The lines of a text, counted from a number.  A text without characters has one
empty line, and nothing follows a line break at the end. -/
def linesOf (number : Nat) (text : List Char) : List Line :=
  match linesFrom number 0 [] text with
  | [] => [⟨number, 0, [], 0⟩]
  | lines => lines

/-- The line that holds an offset, or else the last line. -/
def lineAt (lines : List Line) (offset : Nat) : Line :=
  match lines.find? fun line => line.start ≤ offset && offset < line.stop with
  | some line => line
  | none => lines.getLastD ⟨0, 0, [], 0⟩

/-! ## Columns -/

/-- The character reverses or isolates the direction of writing. -/
def isDirectional (character : Char) : Bool :=
  let code := character.toNat
  (0x202a ≤ code && code ≤ 0x202e) || (0x2066 ≤ code && code ≤ 0x2069)

/-- What is drawn for a character. -/
def drawn (character : Char) : List Char :=
  let code := character.toNat
  if character = '\t' then [' ', ' ', ' ', ' ']
  else if code < 0x20 then [Char.ofNat (0x2400 + code)]
  else if code = 0x7f then ['\u2421']
  else if code = 0x200d then []
  else if isDirectional character then ['\ufffd']
  else [character]

/-- The columns that a character fills. -/
def columnsOf (character : Char) : Nat :=
  if character = '\t' then 4
  else if isDirectional character then 1
  else (Text.columns? character).getD 1

/-- The columns that some characters fill. -/
def width (text : List Char) : Nat :=
  text.foldr (fun character columns => columnsOf character + columns) 0

/-- The characters whose bytes fit into a number of bytes. -/
def firstBytes : Nat → List Char → List Char
  | _, [] => []
  | count, character :: rest =>
      if character.utf8Size ≤ count then
        character :: firstBytes (count - character.utf8Size) rest
      else
        []

/-- A place in a line. -/
structure Place where
  line : Line
  /-- The characters in front of the place. -/
  column : Nat
  /-- The columns in front of the place. -/
  display : Nat
  deriving DecidableEq, Repr

/-- The place of an offset.  In a line break, one more character counts as being in
front. -/
def placeOf (lines : List Line) (offset : Nat) : Place :=
  let line := lineAt lines offset
  let before := firstBytes (offset - line.start) line.text
  let pastText := if line.textStop < offset then 1 else 0
  ⟨line, before.length + pastText, width before⟩

/-- The place of the offset behind a range that starts at a place.  In the line break of
a later line, one more column counts as being in front. -/
def placeBehind (lines : List Line) (start : Place) (offset : Nat) : Place :=
  let place := placeOf lines offset
  if place.line.number ≠ start.line.number ∧ place.line.textStop < offset then
    { place with display := place.display + 1 }
  else
    place

end ByteSignature.Snippet
