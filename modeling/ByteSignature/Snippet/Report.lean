import ByteSignature.Pattern.Diagnostic
import ByteSignature.Text.Utf8

/-!
# Reports

A report shows a diagnostic beside the pattern that it is about: a title, an excerpt of the
pattern with the range that is at fault, and one more title and excerpt for each hint.  How
these parts are drawn is left to a renderer.
-/

namespace ByteSignature.Snippet

/-- Where a pattern stands and how reports about it are written. -/
structure Setting where
  source : List Char
  /-- The file of the pattern. -/
  path? : Option String
  /-- The number of the first line of the pattern. -/
  firstLine : Nat
  color : Bool

/-- What a range is marked for. -/
inductive Purpose where
  | fault
  | context
  deriving DecidableEq, Repr

/-- A text with a marked range. -/
structure Extract where
  source : List Char
  /-- The number of the first line of the text. -/
  firstLine : Nat
  /-- The file of the text, if it is to be named. -/
  path? : Option String
  purpose : Purpose
  start : Nat
  stop : Nat
  /-- What is written beside the mark. -/
  label? : Option String
  deriving DecidableEq, Repr

/-- What the title of a part of a report announces. -/
inductive Level where
  | error
  | help
  deriving DecidableEq, Repr

/-- A part of a report: a title above a text with a marked range. -/
structure Part where
  level : Level
  title : String
  extract : Extract
  deriving DecidableEq, Repr

/-- What draws the parts of a report, with terminal codes or without. -/
abbrev Renderer : Type :=
  (color : Bool) → List Part → String

/-- The range that is shown for a diagnostic.  An empty one is widened by a byte, except
at the end of the pattern. -/
def shownRange (span : Span) (size : Nat) : Nat × Nat :=
  if span.start = span.stop then
    (span.start, min (span.start + 1) size)
  else
    (span.start, span.stop)

/-- The parts of a report on a diagnostic.  Only the first names the file. -/
def partsOf (setting : Setting) (diagnostic : Diagnostic) : List Part :=
  let range := shownRange diagnostic.span (Text.utf8Length setting.source)
  let fault : Extract :=
    ⟨setting.source, setting.firstLine, setting.path?, .fault, range.1, range.2,
      some diagnostic.message⟩
  let context : Extract :=
    ⟨setting.source, setting.firstLine, none, .context, range.1, range.2, none⟩
  ⟨.error, diagnostic.message, fault⟩ ::
    diagnostic.hints.map fun hint => ⟨.help, hint, context⟩

/-- Reports on some diagnostics, below each other. -/
def report (renderer : Renderer) (setting : Setting) (diagnostics : List Diagnostic) :
    String :=
  "\n".intercalate
    (diagnostics.map fun diagnostic => renderer setting.color (partsOf setting diagnostic))

end ByteSignature.Snippet
