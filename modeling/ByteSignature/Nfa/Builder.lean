import ByteSignature.Limit
import ByteSignature.Nfa.Basic
import Std.Data.HashMap.Lemmas

/-!
# Building automata

A fragment is a part of an unfinished automaton with one entry and one exit.  Each
operator takes fragments, adds states and edges, and returns a new fragment:

| operator    | new states  | new edges (silent except for the symbol)               |
|-------------|-------------|--------------------------------------------------------|
| `symbol`    | both ends   | entry to exit                                          |
| `concat`    | none        | first exit to second entry                             |
| `alternate` | both ends   | entry to both entries, both exits to exit              |
| `optional`  | entry       | entry to the operand's entry and to its exit           |
| `kleene`    | both ends   | operand's exit to entry, entry to operand and to exit  |
| `positive`  | both ends   | entry to operand, operand's exit to entry and to exit  |

Only the ends of an operand gain edges, and the exit of a fragment has none until an
operator takes it.  Whatever was added before a failure stays.
-/

namespace ByteSignature.Nfa

/-- The states that exist so far and the number that may exist. -/
structure Builder where
  states : Array State
  limit : Nat
  deriving DecidableEq, Repr

/-- Why a step of the building failed. -/
inductive BuildFault where
  /-- No further state may exist. -/
  | limit (excess : LimitExceeded)
  /-- The state has both its edges already. -/
  | edgesTaken (id : Nat)
  /-- The number belongs to no state. -/
  | unknownState (id : Nat)
  deriving DecidableEq, Repr

/-- The entry and the exit of a part of an automaton. -/
structure Fragment where
  start : Nat
  terminate : Nat
  deriving DecidableEq, Repr

/-- Steps of building, which change the states and may fail. -/
abbrev Build :=
  EStateM BuildFault Builder

namespace Builder

/-- The number of states that may exist unless the caller says otherwise. -/
def defaultLimit : Nat :=
  1048576

/-- No states yet, and at most `limit` of them later. -/
def empty (limit : Nat) : Builder where
  states := #[]
  limit := limit

/-- The number of states that exist. -/
def size (builder : Builder) : Nat :=
  builder.states.size

end Builder

namespace Build

/-- Add a state without edges. -/
def state : Build Nat := fun builder =>
  if builder.states.size < builder.limit then
    .ok builder.states.size { builder with states := builder.states.push .isolated }
  else
    .error (.limit ⟨.nfaStates, builder.limit, builder.states.size + 1⟩) builder

/-- Add an edge behind the others of its source. -/
def edge (source : Nat) (label : Label) (target : Nat) : Build Unit := fun builder =>
  match builder.states[source]? with
  | none => .error (.unknownState source) builder
  | some old =>
      match old.push? ⟨label, target⟩ with
      | none => .error (.edgesTaken source) builder
      | some new =>
          .ok () { builder with states := builder.states.setIfInBounds source new }

/-- Add a silent edge. -/
def silentEdge (source target : Nat) : Build Unit :=
  edge source .epsilon target

/-- A fragment that reads one byte. -/
def symbol (byte : UInt8) : Build Fragment := do
  let start ← state
  let terminate ← state
  edge start (.symbol byte) terminate
  return ⟨start, terminate⟩

/-- The first fragment followed by the second. -/
def concat (first second : Fragment) : Build Fragment := do
  silentEdge first.terminate second.start
  return ⟨first.start, second.terminate⟩

/-- The first fragment or the second. -/
def alternate (first second : Fragment) : Build Fragment := do
  let start ← state
  let terminate ← state
  silentEdge start first.start
  silentEdge start second.start
  silentEdge first.terminate terminate
  silentEdge second.terminate terminate
  return ⟨start, terminate⟩

/-- Nothing or the fragment. -/
def optional (operand : Fragment) : Build Fragment := do
  let start ← state
  silentEdge start operand.start
  silentEdge start operand.terminate
  return ⟨start, operand.terminate⟩

/-- Any number of passes through the fragment. -/
def kleene (operand : Fragment) : Build Fragment := do
  let start ← state
  let terminate ← state
  silentEdge operand.terminate start
  silentEdge start operand.start
  silentEdge start terminate
  return ⟨start, terminate⟩

/-- At least one pass through the fragment. -/
def positive (operand : Fragment) : Build Fragment := do
  let start ← state
  let terminate ← state
  silentEdge start operand.start
  silentEdge operand.terminate start
  silentEdge operand.terminate terminate
  return ⟨start, terminate⟩

end Build

namespace Builder

/-- The number of each listed node in the list, by node. -/
def positions (order : List Nat) : Std.HashMap Nat Nat :=
  Std.HashMap.ofList order.zipIdx

/-- Close the automaton around a fragment.  The states that the entry reaches are
kept and numbered breadth first; the exit follows them when it is not among them.
There is no such automaton when an edge or an end leads to a state that does not
exist. -/
def finish? (builder : Builder) (fragment : Fragment) : Option Nfa :=
  let reached :=
    Graph.discover (targetsAt builder.states) builder.states.size [fragment.start]
  let order :=
    if reached.contains fragment.terminate then reached else reached ++ [fragment.terminate]
  if (order.all fun id => id < builder.states.size) &&
      (targetsAt builder.states fragment.terminate).all fun id =>
        id < builder.states.size then
    let position := positions order
    let renumber (edge : Edge) : Option Edge :=
      position[edge.target]?.map fun target => { edge with target }
    let states := order.map fun id => (builder.states.getD id .isolated).filterMap renumber
    Nfa.ofParts? states.toArray 0 (position.getD fragment.terminate 0)
  else
    none

end Builder

end ByteSignature.Nfa
