import ByteSignature.Snippet.Drawing
import ByteSignature.Table.Json

/-!
# Libraries

Commands leave two things to others: lists of entries as JSON, and the drawing of reports.
-/

namespace ByteSignature.Command

/-- What commands leave to others. -/
structure Libraries where
  json : JsonLibrary
  renderer : Snippet.Renderer

/-- The readers and writers that are brought along. -/
def Libraries.builtIn : Libraries where
  json := .builtIn
  renderer := Snippet.draw

end ByteSignature.Command
