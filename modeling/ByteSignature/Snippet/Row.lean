/-!
# Rows of cells

A report is drawn on rows of cells.  A cell holds a character and the ink that it is
drawn with.  Writing behind the end of a row fills the space between with blanks.
-/

namespace ByteSignature.Snippet

/-- How a character is drawn. -/
inductive Ink where
  | plain
  | bold
  | red
  | cyan
  | blue
  deriving DecidableEq, Repr

/-- The terminal code that selects an ink. -/
def Ink.code : Ink → String
  | plain => ""
  | bold => "\x1b[1m"
  | red => "\x1b[1m\x1b[91m"
  | cyan => "\x1b[1m\x1b[96m"
  | blue => "\x1b[1m\x1b[94m"

/-- The terminal code that ends the use of an ink. -/
def Ink.reset : Ink → String
  | plain => ""
  | bold | red | cyan | blue => "\x1b[0m"

/-- A character and its ink. -/
structure Cell where
  character : Char
  ink : Ink
  deriving DecidableEq, Repr

/-- A row of cells. -/
abbrev Row : Type :=
  List Cell

namespace Row

/-- Text as cells. -/
def ofText (text : List Char) (ink : Ink) : Row :=
  text.map fun character => ⟨character, ink⟩

/-- Write text from a column on.  Without text the row stays as it is. -/
def put (row : Row) (column : Nat) (text : List Char) (ink : Ink) : Row :=
  if text.isEmpty then
    row
  else
    let filled := row ++ List.replicate (column - row.length) ⟨' ', .plain⟩
    filled.take column ++ ofText text ink ++ filled.drop (column + text.length)

/-- Write text behind the row. -/
def append (row : Row) (text : List Char) (ink : Ink) : Row :=
  row ++ ofText text ink

/-- Write a character in all columns from `start` up to but not including `stop`. -/
def fill (row : Row) (start stop : Nat) (character : Char) (ink : Ink) : Row :=
  if start < stop then
    row.put start (List.replicate (stop - start) character) ink
  else
    row

/-- Replace the cells from `start` up to but not including `stop`, when the row has
them, by dots. -/
def elide (row : Row) (start stop : Nat) : Row :=
  if start ≠ stop ∧ start ≤ row.length ∧ stop ≤ row.length then
    row.take start ++ ofText ['.', '.', '.'] .blue ++ row.drop stop
  else
    row

/-- The text of a row behind cells of some ink, with terminal codes where the ink
changes. -/
def paintFrom : Ink → Row → String
  | current, [] => current.reset
  | current, cell :: cells =>
      let text := String.singleton cell.character
      if cell.ink = current then
        text ++ paintFrom current cells
      else
        current.reset ++ cell.ink.code ++ text ++ paintFrom cell.ink cells

/-- The text of a row, with terminal codes or without. -/
def format (color : Bool) (row : Row) : String :=
  if color then
    paintFrom .plain row
  else
    String.ofList (row.map Cell.character)

end Row

end ByteSignature.Snippet
