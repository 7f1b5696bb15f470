import ByteSignature.Snippet.Excerpt
import ByteSignature.Snippet.Report
import ByteSignature.Text.Quoted

/-!
# Drawn reports

A renderer that draws the parts of a report below each other: the title, the place of the text
when it comes from a file, and the excerpt with the marked range.
-/

namespace ByteSignature.Snippet

/-- The pieces of some text between line feeds. -/
def pieces (text : List Char) : List (List Char) :=
  text.splitOn '\n'

/-- The rows of a title.  Its later lines are indented below the first. -/
def titleRows (name : String) (ink : Ink) (text : List Char) (textInk : Ink) : List Row :=
  let indent := List.replicate (name.length + 2) ' '
  match pieces text with
  | [] => []
  | first :: others =>
      (Row.ofText name.toList ink).append (": ".toList ++ first) textInk ::
        others.map fun other => (Row.ofText indent .plain).append other textInk

/-- The title of a part.  What an error says is drawn as text of the excerpt is. -/
def Part.titleRows (part : Part) : List Row :=
  let text := part.title.toList
  match part.level with
  | .error =>
      let shown := text.flatMap fun character =>
        if character = '\n' then ['\n'] else drawn character
      Snippet.titleRows "error" .red shown .bold
  | .help => Snippet.titleRows "help" .cyan text .plain

/-- How the mark of a range is drawn. -/
def Purpose.emphasis : Purpose → Emphasis
  | fault => .fault
  | context => .context

namespace Extract

/-- The digits of the number of the last line that begins in front of the end of the
marked range. -/
def numberDigits (extract : Extract) : Nat :=
  let before := (firstBytes extract.stop extract.source).dropLast
  (Text.decimal (extract.firstLine + before.count '\n')).length

/-- The row with the place of the range in a file. -/
def pathRows (extract : Extract) (digits : Nat) (place : Place) : List Row :=
  match extract.path? with
  | none => []
  | some path =>
      let position := ":" ++ toString place.line.number ++ ":" ++ toString (place.column + 1)
      [(Row.put [] digits "--> ".toList .blue).append (path ++ position).toList .plain]

/-- The rows of a text with a marked range. -/
def rows (extract : Extract) (digits : Nat) : List Row :=
  let lines := linesOf extract.firstLine extract.source
  extract.pathRows digits (placeOf lines extract.start) ++
    gutterRow digits ::
      excerpt digits extract.purpose.emphasis (extract.label?.map String.toList) lines
        extract.start extract.stop

end Extract

/-- The rows of a part of a report, in which line numbers take some digits. -/
def Part.rows (digits : Nat) (part : Part) : List Row :=
  part.titleRows ++ part.extract.rows digits

/-- The rows of a report. -/
def reportRows (parts : List Part) : List Row :=
  let digits := parts.foldl (fun digits part => max digits part.extract.numberDigits) 0
  match parts with
  | [] => []
  | first :: others =>
      first.rows digits ++ (if others.isEmpty then [] else [gutterRow digits]) ++
        others.flatMap (Part.rows digits)

/-- Draw the parts of a report. -/
def draw : Renderer := fun color parts =>
  "\n".intercalate ((reportRows parts).map (Row.format color))

/-! ## Ranges that can be shown -/

/-- Why a range cannot be shown. -/
inductive RangeFault where
  /-- The range passes the end of the pattern, which has `size` bytes, by more than one
  byte. -/
  | beyondEnd (start stop size : Nat)
  /-- An end of the range lies inside a character, whose first byte is at `start`. -/
  | insideCharacter (offset start : Nat) (character : Char)
  deriving DecidableEq, Repr

/-- The text that explains a range that cannot be shown. -/
def RangeFault.message : RangeFault → String
  | .beyondEnd start stop size =>
      "Annotation range `" ++ toString start ++ ".." ++ toString stop ++
        "` is beyond the end of buffer `" ++ toString size ++ "`"
  | .insideCharacter offset start character =>
      "end byte index " ++ toString offset ++ " is not a char boundary; it is inside '" ++
        String.ofList (Text.quoteChar character) ++ "' (bytes " ++ toString start ++ ".." ++
        toString (start + character.utf8Size) ++ " of string)"

/-- Refuse an offset inside a character of a text that starts at an offset. -/
def checkBoundary (offset : Nat) : (start : Nat) → List Char → Except RangeFault Unit
  | _, [] => .ok ()
  | start, character :: rest =>
      if offset ≤ start then
        .ok ()
      else if offset < start + character.utf8Size then
        .error (.insideCharacter offset start character)
      else
        checkBoundary offset (start + character.utf8Size) rest

/-- Refuse a range that cannot be shown.  The end of the range is sought in the pattern,
and the beginning in its line. -/
def checkRange (setting : Setting) (span : Span) : Except RangeFault Unit := do
  let size := Text.utf8Length setting.source
  let range := shownRange span size
  checkBoundary range.2 0 setting.source
  if size + 1 < range.2 then
    throw (.beyondEnd range.1 range.2 size)
  let line := lineAt (linesOf setting.firstLine setting.source) range.1
  checkBoundary (range.1 - line.start) 0 line.text

/-- Drawn reports on some diagnostics, if all ranges can be shown. -/
def drawReports (setting : Setting) (diagnostics : List Diagnostic) :
    Except RangeFault String := do
  diagnostics.forM fun diagnostic => checkRange setting diagnostic.span
  return report draw setting diagnostics

end ByteSignature.Snippet
