import ByteSignature.Compile.Trace
import ByteSignature.Snippet.Report
import ByteSignature.Text.Blank
import ByteSignature.Text.Lines

/-!
# Reports on signatures

Errors of a compile are reported beside the pattern where that helps.  A file with one
pattern on each line is checked by compiling every line that is not blank, and each line
that does not compile gets a report with its number.
-/

namespace ByteSignature

/-- The report of an error in a signature. -/
def CompileError.report (renderer : Snippet.Renderer) (color : Bool) (signature : Signature)
    (error : CompileError) : String :=
  match error, signature with
  | .malformed findings, .pattern source =>
      Snippet.report renderer ⟨source.toList, none, 1, color⟩ findings
  | error, _ => "error: " ++ error.message

/-- The report of an error in a line of a file. -/
def CompileError.reportInFile (renderer : Snippet.Renderer) (color : Bool) (path : String)
    (number : Nat) (pattern : List Char) : CompileError → String
  | .malformed findings =>
      Snippet.report renderer ⟨pattern, some path, number, color⟩ findings
  | error => "error: " ++ path ++ ":" ++ toString number ++ ": " ++ error.message

/-- The report on a line of a file, unless the line is blank or compiles.  Blanks at its
end do not belong to the pattern. -/
def checkLine (renderer : Snippet.Renderer) (options : CompileOptions) (color : Bool)
    (path : String) (number : Nat) (line : List Char) : Option String :=
  let pattern := Text.trimEnd line
  if pattern.isEmpty then
    none
  else
    match compileTable options (String.ofList pattern) with
    | .ok _ => none
    | .error error => some (error.reportInFile renderer color path number pattern)

/-- The reports on the lines of a file, in order. -/
def checkText (renderer : Snippet.Renderer) (options : CompileOptions) (color : Bool)
    (path : String) (text : List Char) : List String :=
  ((Text.lines text).zipIdx 1).filterMap fun numbered =>
    checkLine renderer options color path numbered.2 numbered.1

end ByteSignature
