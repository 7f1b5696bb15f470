import ByteSignature.Dfa.Order
import ByteSignature.Nfa.Basic
import ByteSignature.Symbol

/-!
# Drawing automata

Automata are written in the DOT language.  Accepting states are double circles, and a
point named `start` has an edge to the start state.  The states of a deterministic
automaton are numbered by their place in the canonical order, as in its table.
-/

namespace ByteSignature.Graphviz

/-- The lines at the top of a drawing. -/
def header (name : String) : String :=
  "digraph " ++ name ++ " \x7b\n  rankdir=LR;\n  node [shape=circle];\n" ++
    "  start [shape=point];\n"

/-- The line at the bottom of a drawing. -/
def footer : String :=
  "\x7d\n"

/-- The label of an edge that reads a byte.  A quotation mark is escaped. -/
def symbolLabel (symbol : UInt8) : String :=
  if symbol = 0x22 then "\\\"" else Symbol.format symbol

/-- The label of an edge that may be silent. -/
def edgeLabel : Label → String
  | .epsilon => "ε"
  | .symbol byte => symbolLabel byte

/-- The line of the edge from the point to the start state. -/
def startLine (id : Nat) : String :=
  "  start -> " ++ toString id ++ ";\n"

/-- The line of an accepting state. -/
def acceptingLine (id : Nat) : String :=
  "  " ++ toString id ++ " [shape=doublecircle];\n"

/-- The line of an edge. -/
def edgeLine (source target : Nat) (label : String) : String :=
  "  " ++ toString source ++ " -> " ++ toString target ++ " [label=\"" ++ label ++ "\"];\n"

/-- The lines of a state: one if it is accepting, and one for each edge. -/
def stateLines (id : Nat) (accepting : Bool) (edges : List (Nat × String)) : List String :=
  (if accepting then [acceptingLine id] else []) ++
    edges.map fun edge => edgeLine id edge.1 edge.2

/-- The lines of a state of a nondeterministic automaton. -/
def nfaStateLines (nfa : Nfa) (id : Nat) : List String :=
  stateLines id (id == nfa.terminate)
    ((nfa.edges id).map fun edge => (edge.target, edgeLabel edge.label))

/-- The drawing of a nondeterministic automaton. -/
def ofNfa (nfa : Nfa) : String :=
  header "nfa" ++ startLine nfa.start ++
    String.join ((List.range nfa.size).flatMap (nfaStateLines nfa)) ++ footer

/-- The lines of a place in the description of a deterministic automaton. -/
def shapeStateLines (place : Nat) (state : Dfa.ShapeState) : List String :=
  stateLines place state.accepting
    (state.edges.map fun edge => (edge.2, symbolLabel edge.1))

/-- The drawing of a deterministic automaton. -/
def ofDfa (dfa : Dfa) : String :=
  let shape := dfa.shape
  header "dfa" ++ (if shape.isEmpty then "" else startLine 0) ++
    String.join (shape.zipIdx.flatMap fun state => shapeStateLines state.2 state.1) ++
    footer

end ByteSignature.Graphviz
