/-!
# Colours and detail

Listings and traces are written with a palette of terminal colour codes, which is
either the standard one or the one whose codes are all empty, and at a level of
detail chosen by how often `-v` was given.
-/

namespace ByteSignature

/-- Terminal codes for the parts of a listing. -/
structure Palette where
  state : String
  symbol : String
  accept : String
  dim : String
  reset : String
  deriving DecidableEq, Repr

namespace Palette

/-- Blue states, yellow symbols, green accepts and dim separators. -/
def colored : Palette where
  state := "\x1b[34m"
  symbol := "\x1b[33m"
  accept := "\x1b[32m"
  dim := "\x1b[2m"
  reset := "\x1b[0m"

/-- No codes at all. -/
def plain : Palette :=
  ⟨"", "", "", "", ""⟩

/-- The palette for colours being wanted or not. -/
def choose (color : Bool) : Palette :=
  if color then colored else plain

/-- A palette with a reset code is in use. -/
def isEnabled (palette : Palette) : Bool :=
  !palette.reset.isEmpty

end Palette

/-- How much a trace tells. -/
inductive Verbosity where
  /-- Milestones only. -/
  | quiet
  /-- One line for each state, and the resets of a scan. -/
  | verbose
  /-- Everything down to single transitions. -/
  | veryVerbose
  deriving DecidableEq, Repr

namespace Verbosity

/-- The level that a count of `-v` flags asks for. -/
def ofCount : Nat → Verbosity
  | 0 => quiet
  | 1 => verbose
  | _ + 2 => veryVerbose

/-- The level shows single states. -/
def showsStates : Verbosity → Bool
  | quiet => false
  | verbose | veryVerbose => true

/-- The level shows single transitions. -/
def showsTransitions : Verbosity → Bool
  | quiet | verbose => false
  | veryVerbose => true

end Verbosity

end ByteSignature
