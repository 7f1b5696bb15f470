import ByteSignature.Snippet.Row
import ByteSignature.Snippet.Window
import ByteSignature.Text.Decimal

/-!
# Excerpts

An excerpt shows the lines of a text that a range touches.  Line numbers stand in front
of a gutter, marks and the label below their lines.  A range over several lines is drawn
as a bracket to the left of them.
-/

namespace ByteSignature.Snippet

/-- How the marks of an excerpt are drawn. -/
structure Emphasis where
  underline : Char
  ink : Ink
  deriving DecidableEq, Repr

namespace Emphasis

/-- The range that is at fault. -/
def fault : Emphasis :=
  ⟨'^', .red⟩

/-- The range that a hint is about. -/
def context : Emphasis :=
  ⟨'-', .blue⟩

end Emphasis

/-- The columns of an excerpt and how it is drawn. -/
structure Frame where
  /-- The digits of the largest line number. -/
  digits : Nat
  /-- A column is kept free for a bracket. -/
  hasBracket : Bool
  window : Window
  emphasis : Emphasis
  label : List Char
  deriving DecidableEq, Repr

namespace Frame

/-- The column of the bracket. -/
def bracketColumn (frame : Frame) : Nat :=
  frame.digits + 3

/-- The column where text begins. -/
def textColumn (frame : Frame) : Nat :=
  frame.digits + if frame.hasBracket then 5 else 3

end Frame

/-- A row with nothing but the gutter. -/
def gutterRow (digits : Nat) : Row :=
  Row.put [] (digits + 1) ['|'] .blue

/-- Write the visible part of a line from a column on. -/
def putText (row : Row) (column : Nat) (visible : VisibleText) : Row :=
  let dots := ['.', '.', '.']
  let text := visible.text
  let front := if visible.cutLeft then dotsCover text else 0
  let frontColumns := width (text.take front)
  let row := if visible.cutLeft then row.put column dots .blue else row
  let row := row.put (column + frontColumns) (text.drop front) .plain
  if visible.cutRight then
    let back := dotsCover text.reverse
    row.put (column + frontColumns + (text.length - front) - back) dots .blue
  else
    row

/-- The row of a line without its mark. -/
def textRow (frame : Frame) (line : Line) (visible : VisibleText) : Row :=
  let number := (Text.decimal line.number).leftpad frame.digits ' '
  putText ((Row.ofText number .blue).put (frame.digits + 1) ['|'] .blue) frame.textColumn visible

/-- Draw the bracket beside a row. -/
def putBar (frame : Frame) (row : Row) : Row :=
  row.put frame.bracketColumn ['|'] frame.emphasis.ink

/-- The rows of a line with its mark. -/
def markedRows (frame : Frame) (item : MarkedLine) : List Row :=
  let visible := frame.window.show item.line.text
  let row := textRow frame item.line visible
  let below := gutterRow frame.digits
  let ink := frame.emphasis.ink
  let place (column : Nat) : Nat := frame.textColumn + column - visible.left
  let arm := frame.bracketColumn + 1
  match item.mark with
  | .bar => [putBar frame row]
  | .underline start stop =>
      let below := below.put (frame.textColumn + (stop + 1 - visible.left)) frame.label ink
      let below := below.fill (place start) (place stop) frame.emphasis.underline ink
      if 2 * frame.window.room < stop - start ∧ 10 < stop - start then
        let pad := max (frame.window.room / 3) 5
        let first := place start + pad
        let behind := place stop - pad
        [row.elide first behind, below.elide first behind]
      else
        [row, below]
  | .opening start =>
      if ((item.line.text.flatMap drawn).take start).all Text.isBlank then
        [row.put frame.bracketColumn ['/'] ink]
      else
        let below := below.fill arm (place start) '_' ink
        let below := below.put frame.bracketColumn [' '] ink
        [row, below.put (place start) [frame.emphasis.underline] ink]
  | .closing stop =>
      let below := putBar frame (below.fill arm (place (stop - 1)) '_' ink)
      let behind := if stop = 0 then 2 else stop + 1
      let below := below.put (frame.textColumn + (behind - visible.left)) frame.label ink
      [putBar frame row, below.put (place (stop - 1)) [frame.emphasis.underline] ink]

/-- The rows between a marked line and the next one.  A single line that is not marked
is shown, and several are replaced by dots. -/
def rowsBetween (frame : Frame) (lines : List Line) (item next : MarkedLine) : List Row :=
  let first := item.line.number
  let beside (row : Row) : Row :=
    match item.mark with
    | .opening _ | .bar => putBar frame row
    | .underline _ _ | .closing _ => row
  if next.line.number - first = 2 then
    (lines.filter fun line => line.number = first + 1).map fun line =>
      beside (textRow frame line (frame.window.show line.text))
  else if 2 < next.line.number - first then
    [beside (Row.ofText ['.', '.', '.'] .blue)]
  else
    []

/-- The rows of marked lines, from the first to the last. -/
def excerptRows (frame : Frame) (lines : List Line) : List MarkedLine → List Row
  | [] => []
  | item :: items =>
      let between :=
        match items with
        | [] => []
        | next :: _ => rowsBetween frame lines item next
      markedRows frame item ++ between ++ excerptRows frame lines items

/-- The columns of the terminal for which excerpts are made. -/
def terminalColumns : Nat :=
  140

/-- The excerpt of some lines that shows the range between two offsets, with a label if
there is one. -/
def excerpt (digits : Nat) (emphasis : Emphasis) (label? : Option (List Char))
    (lines : List Line) (start stop : Nat) : List Row :=
  let marked := marksOf lines start stop
  let frame : Frame :=
    { digits
      hasBracket := marked.any fun item => item.mark.isPart
      window := ⟨0, 0, 0⟩
      emphasis
      label := label?.getD [] }
  let window := Window.choose (terminalColumns - frame.textColumn) (extentOf marked label?)
  excerptRows { frame with window } lines marked

end ByteSignature.Snippet
