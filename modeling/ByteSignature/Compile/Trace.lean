import ByteSignature.Compile.Basic
import ByteSignature.Literal.Table
import ByteSignature.Palette
import ByteSignature.Text.Pad

/-!
# Tracing a compile

A signature is a pattern or a list of literals.  Compiling a signature passes through
stages, each of which leaves lines in a trace: its name and size always, and more at
higher levels of detail.
-/

namespace ByteSignature

/-- What to compile. -/
inductive Signature where
  | pattern (source : String)
  | literals (texts : List (List UInt8))
  deriving DecidableEq, Repr

namespace Signature

/-- The table of a signature. -/
def compileTable (options : CompileOptions) : Signature → Except CompileError Table
  | pattern source => ByteSignature.compileTable options source
  | literals texts => compileLiterals options texts

end Signature

/-- A stage that has been completed, with what it produced. -/
inductive Stage where
  | nfa (automaton : Nfa)
  | dfa (automaton : Dfa)
  | minimal (before after : Dfa)
  | table (result : Table)

namespace Stage

/-- The stages that lead to a table, or none when there is no table. -/
def ofTable : Except CompileError Table → List Stage
  | .error _ => []
  | .ok result => [.table result]

/-- The stages of a compiled pattern. -/
def ofCompilation (compilation : Compilation) : List Stage :=
  let minimal :=
    match compilation.minimal? with
    | none => []
    | some after => [.minimal compilation.dfa after]
  .nfa compilation.nfa :: .dfa compilation.dfa :: minimal ++ ofTable compilation.table

/-- The stages that the pattern of a text completes. -/
def ofSource (options : CompileOptions) (source : String) : List Stage :=
  match compile options source with
  | .ok compilation => ofCompilation compilation
  | .error _ =>
      match nfaOfSource options source with
      | .error _ => []
      | .ok automaton => [.nfa automaton]

/-- The stages that a signature completes.  Literals have no stage but the table. -/
def ofSignature (options : CompileOptions) : Signature → List Stage
  | .pattern source => ofSource options source
  | .literals texts => ofTable (compileLiterals options texts)

/-- The line with the name of a stage and what came of it. -/
def summaryLine (palette : Palette) (name detail : String) : String :=
  palette.dim ++ Text.padRight 9 name ++ palette.reset ++ " " ++ detail

/-- The line of an edge of a nondeterministic automaton. -/
def edgeLine (source : Nat) (edge : Nfa.Edge) : String :=
  let label :=
    match edge.label with
    | .epsilon => "ε"
    | .symbol byte => Symbol.format byte
  "  " ++ toString source ++ " -" ++ label ++ "-> " ++ toString edge.target

/-- The lines of all edges of a nondeterministic automaton. -/
def edgeLines (nfa : Nfa) : List String :=
  (List.range nfa.size).flatMap fun id => (nfa.edges id).map (edgeLine id)

/-- The line of a state of a deterministic automaton, numbered as in its table. -/
def stateLine (palette : Palette) (place : Nat) (state : Dfa.ShapeState) : String :=
  let accept :=
    if state.accepting then " " ++ palette.accept ++ "accept" ++ palette.reset else ""
  let edge (edge : UInt8 × Nat) : String :=
    " " ++ palette.symbol ++ Symbol.format edge.1 ++ palette.reset ++ palette.dim ++ "->" ++
      palette.reset ++ toString edge.2
  "  " ++ palette.state ++ toString place ++ palette.reset ++ accept ++
    String.join (state.edges.map edge)

/-- The lines of all states of a deterministic automaton. -/
def stateLines (palette : Palette) (dfa : Dfa) : List String :=
  dfa.shape.zipIdx.map fun state => stateLine palette state.2 state.1

/-- The lines that a stage leaves in a trace. -/
def lines (verbosity : Verbosity) (palette : Palette) : Stage → List String
  | nfa automaton =>
      summaryLine palette "nfa" (toString automaton.size ++ " states") ::
        (if verbosity.showsTransitions then edgeLines automaton else [])
  | dfa automaton =>
      summaryLine palette "dfa" (toString automaton.size ++ " states") ::
        (if verbosity.showsStates then stateLines palette automaton else [])
  | minimal before after =>
      summaryLine palette "minimize"
          (toString before.size ++ " -> " ++ toString after.size ++ " states") ::
        (if verbosity.showsStates then stateLines palette after else [])
  | table result =>
      [summaryLine palette "table"
        (toString result.size ++ " entries, " ++ toString result.stateCount ++ " states")]

end Stage

/-- The trace of compiling a signature. -/
def compileTrace (options : CompileOptions) (verbosity : Verbosity) (palette : Palette)
    (signature : Signature) : List String :=
  (Stage.ofSignature options signature).flatMap (Stage.lines verbosity palette)

end ByteSignature
