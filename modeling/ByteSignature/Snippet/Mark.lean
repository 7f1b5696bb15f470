import ByteSignature.Snippet.Line

/-!
# Marks on lines

A range in a text becomes marks on the lines that it touches.  On one line it is
underlined.  Over several lines it opens on the first, closes on the last, and a bar
runs along those between, of which only the first few and the last one are shown.
-/

namespace ByteSignature.Snippet

/-- A mark on a line, with its place in columns. -/
inductive Mark where
  /-- The columns from `start` up to but not including `stop` are underlined. -/
  | underline (start stop : Nat)
  /-- A range over several lines starts at this column. -/
  | opening (start : Nat)
  /-- The line is inside a range. -/
  | bar
  /-- A range over several lines ends in front of this column. -/
  | closing (stop : Nat)
  deriving DecidableEq, Repr

namespace Mark

/-- The first column of a mark and the column behind it.  A bar is drawn beside the
line and has none. -/
def columns? : Mark → Option (Nat × Nat)
  | underline start stop => some (start, stop)
  | opening start => some (start, start + 1)
  | bar => none
  | closing stop => some (stop - 1, stop)

/-- The column behind the mark at which the label stands. -/
def labelColumn? : Mark → Option Nat
  | underline _ stop | closing stop => some stop
  | opening _ | bar => none

/-- The mark belongs to a range over several lines. -/
def isPart : Mark → Bool
  | underline _ _ => false
  | opening _ | bar | closing _ => true

end Mark

/-- A line that is shown, and the mark on it. -/
structure MarkedLine where
  line : Line
  mark : Mark
  deriving DecidableEq, Repr

/-- The line has little to show: nothing but blanks, a lone bracket, or a remark. -/
def isBare (line : Line) : Bool :=
  let text := Text.trim line.text
  let startsWith (start : String) : Bool := start.toList.isPrefixOf text
  ["", "\x7b", "\x7d", "(", ")", "[", "]"].contains (String.ofList text) ||
    (startsWith "//" && !(startsWith "///" || startsWith "//!"))

/-- The lines between the first and the last line of a range that are shown: up to three
behind the first, without bare ones at their end, and the one in front of the last
unless it is bare. -/
def innerLines (lines : List Line) (first last : Nat) : List Line :=
  let middle := min (first + 4) last
  let isIn (start stop : Nat) (line : Line) : Bool := start ≤ line.number && line.number < stop
  let leading := lines.filter (isIn first middle)
  let behind :=
    match leading.reverse.find? fun line => !isBare line with
    | some line => line.number + 1
    | none => first
  let ending := lines.filter fun line =>
    line.number + 1 == last && middle < line.number && !isBare line
  lines.filter (isIn (first + 1) behind) ++ ending

/-- The marks for the range between two offsets.  A range without columns is widened to
one. -/
def marksOf (lines : List Line) (start stop : Nat) : List MarkedLine :=
  let first := placeOf lines start
  let last := placeBehind lines first stop
  if first.line.number = last.line.number then
    let stop := if first.display = last.display then last.display + 1 else last.display
    [⟨first.line, .underline first.display stop⟩]
  else
    let inner := innerLines lines first.line.number last.line.number
    ⟨first.line, .opening first.display⟩ :: inner.map (⟨·, .bar⟩) ++
      [⟨last.line, .closing last.display⟩]

end ByteSignature.Snippet
