import ByteSignature.Snippet.Mark

/-!
# The visible part of lines

Lines that are too long for a terminal are cut to a window of columns.  The window is
chosen once for all lines of a snippet so that the marks and, if possible, their label
stay visible.
-/

namespace ByteSignature.Snippet

/-- The columns that are shown. -/
structure Window where
  left : Nat
  right : Nat
  /-- The columns that the terminal has for lines. -/
  room : Nat
  deriving DecidableEq, Repr

/-- What a window has to show. -/
structure Extent where
  /-- Blanks that all lines start with. -/
  indent : Nat
  /-- The first column with a mark. -/
  markStart : Nat
  /-- The column behind the last mark. -/
  markStop : Nat
  /-- The column behind the label. -/
  labelStop : Nat
  /-- The columns of the longest line. -/
  lineWidth : Nat
  deriving DecidableEq, Repr

/-- The least number of a list, or zero. -/
def leastOf : List Nat → Nat
  | [] => 0
  | number :: numbers => numbers.foldl min number

/-- The blanks in front of a line that has something else. -/
def indentOf? (line : Line) : Option Nat :=
  if line.text.all Text.isBlank then
    none
  else
    let blankColumns (blank : Char) (columns : Nat) : Nat :=
      columns + if blank = '\t' then 4 else 1
    some ((line.text.takeWhile Text.isBlank).foldr blankColumns 0)

/-- What the marks and a label need.  A space stands in front of the label. -/
def extentOf (marked : List MarkedLine) (label? : Option (List Char)) : Extent :=
  let columns := marked.filterMap fun item => item.mark.columns?
  let labelColumns := (label?.map fun label => width label + 1).getD 0
  let labelStops := marked.filterMap fun item =>
    item.mark.labelColumn?.map fun column => column + labelColumns
  let markStop := (columns.map fun range => max range.1 range.2).foldl max 0
  { indent := leastOf (marked.filterMap fun item => indentOf? item.line)
    markStart := leastOf (columns.flatMap fun range => [range.1, range.2])
    markStop
    labelStop := labelStops.foldl max markStop
    lineWidth := (marked.map fun item => width item.line.text).foldl max 0 }

namespace Window

/-- The window for an extent.  Deep indents are cut in any case, up to some padding and
never beyond the marks.  If that leaves too much, the window is laid around the text and
the label, around the marks and the label, or around the marks alone, whichever is the
first to fit. -/
def choose (room : Nat) (extent : Extent) : Window :=
  let markStart := extent.markStart - 6
  let indent := min (extent.indent - 6) markStart
  let markStop := extent.markStop + 6
  let labelStop := extent.labelStop + 6
  let left := if 20 < indent then indent - 16 else 0
  let right := max extent.lineWidth left
  if right - left ≤ room then
    ⟨left, right, room⟩
  else if labelStop - indent ≤ room then
    ⟨indent, indent + room, room⟩
  else if labelStop - markStart ≤ room then
    let left := markStart - (room - (labelStop - markStart)) / 2
    ⟨left, left + room, room⟩
  else if markStop - markStart ≤ room then
    let left := markStart - (room - (markStop - markStart)) / 5 * 2
    ⟨left, left + room, room⟩
  else
    ⟨markStart, markStop, room⟩

/-- The first column that is shown of a line with so many columns. -/
def leftOf (window : Window) (lineWidth : Nat) : Nat :=
  min window.left lineWidth

/-- The column behind what is shown of a line with so many columns. -/
def rightOf (window : Window) (lineWidth : Nat) : Nat :=
  if lineWidth - window.left ≤ window.room then lineWidth else min lineWidth window.right

end Window

/-- The characters from a column on, and the columns that were left out.  A wide
character on the boundary is left out. -/
def dropColumns (count : Nat) : (skipped : Nat) → List Char → Nat × List Char
  | skipped, [] => (skipped, [])
  | skipped, character :: rest =>
      if skipped < count then
        dropColumns count (skipped + columnsOf character) rest
      else
        (skipped, character :: rest)

/-- The characters that fit into some columns. -/
def takeColumns : (count : Nat) → List Char → List Char
  | _, [] => []
  | count, character :: rest =>
      if columnsOf character ≤ count then
        character :: takeColumns (count - columnsOf character) rest
      else
        []

/-- The number of characters that fill at least three columns, if so many are there. -/
def dotsCover (text : List Char) : Nat :=
  let step (found : Nat × Nat) (character : Char) : Nat × Nat :=
    if 3 ≤ found.2 then found else (found.1 + 1, found.2 + columnsOf character)
  (text.foldl step (0, 0)).1

/-- What is shown of a line: the columns that are left out at its beginning, the
characters, and whether dots replace the first and the last of them. -/
structure VisibleText where
  left : Nat
  text : List Char
  cutLeft : Bool
  cutRight : Bool
  deriving DecidableEq, Repr

/-- The visible part of a line. -/
def Window.show (window : Window) (text : List Char) : VisibleText :=
  let text := text.flatMap drawn
  let lineWidth := width text
  let left := window.leftOf lineWidth
  let right := window.rightOf lineWidth
  let (skipped, rest) := dropColumns left 0 text
  ⟨max left skipped, takeColumns (right - left) rest, 0 < window.left, right < lineWidth⟩

end ByteSignature.Snippet
