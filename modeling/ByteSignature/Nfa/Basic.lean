import ByteSignature.Graph

/-!
# Nondeterministic automata

States are numbered from zero.  A state has at most two outgoing edges, kept in the
order in which they were added, and an edge either reads one byte or is silent.  A
finished automaton has one start state and one accepting state, and all its numbers
are those of its states.
-/

namespace ByteSignature

/-- What an edge reads. -/
inductive Label where
  | epsilon
  | symbol (byte : UInt8)
  deriving DecidableEq, Repr

namespace Nfa

/-- An outgoing edge. -/
structure Edge where
  label : Label
  target : Nat
  deriving DecidableEq, Repr

/-- At most two outgoing edges, earliest first. -/
structure State where
  edges : List Edge
  length_le_two : edges.length ≤ 2
  deriving DecidableEq, Repr

namespace State

/-- A state without edges. -/
def isolated : State :=
  ⟨[], Nat.zero_le _⟩

instance : Inhabited State :=
  ⟨isolated⟩

/-- Add an edge behind the others, if there is room for it. -/
def push? (state : State) (edge : Edge) : Option State :=
  if h : state.edges.length < 2 then
    some ⟨state.edges ++ [edge], by rw [List.length_append]; exact h⟩
  else
    none

/-- The edges that a function keeps, as it changes them. -/
def filterMap (change : Edge → Option Edge) (state : State) : State where
  edges := state.edges.filterMap change
  length_le_two := Nat.le_trans (List.length_filterMap_le _ _) state.length_le_two

theorem edges_of_push?_eq_some {state next : State} {edge : Edge}
    (h : state.push? edge = some next) : next.edges = state.edges ++ [edge] := by
  unfold push? at h
  split at h
  · cases h
    rfl
  · cases h

end State

/-- The edges of a state, and none where there is no such state. -/
def edgesAt (states : Array State) (id : Nat) : List Edge :=
  match states[id]? with
  | some state => state.edges
  | none => []

/-- The targets of the edges of a state. -/
def targetsAt (states : Array State) (id : Nat) : List Nat :=
  (edgesAt states id).map Edge.target

/-- The targets of the silent edges of a state. -/
def silentTargetsAt (states : Array State) (id : Nat) : List Nat :=
  ((edgesAt states id).filter fun edge => edge.label == .epsilon).map Edge.target

/-- The targets of the edges of a state that read a given byte. -/
def targetsOnAt (states : Array State) (byte : UInt8) (id : Nat) : List Nat :=
  ((edgesAt states id).filter fun edge => edge.label == .symbol byte).map Edge.target

end Nfa

/-- A finished automaton. -/
structure Nfa where
  states : Array Nfa.State
  start : Nat
  terminate : Nat
  start_lt_size : start < states.size
  terminate_lt_size : terminate < states.size
  target_lt_size : ∀ state ∈ states, ∀ edge ∈ state.edges, edge.target < states.size

namespace Nfa

/-- The automaton with the given parts, when all their numbers are those of states. -/
def ofParts? (states : Array State) (start terminate : Nat) : Option Nfa :=
  if h : start < states.size ∧ terminate < states.size ∧
      ∀ state ∈ states, ∀ edge ∈ state.edges, edge.target < states.size then
    some {
      states, start, terminate
      start_lt_size := h.1
      terminate_lt_size := h.2.1
      target_lt_size := h.2.2 }
  else
    none

/-- The number of states. -/
def size (nfa : Nfa) : Nat :=
  nfa.states.size

/-- The edges of a state. -/
def edges (nfa : Nfa) (id : Nat) : List Edge :=
  edgesAt nfa.states id

/-- The number belongs to a state. -/
def hasState (nfa : Nfa) (id : Nat) : Bool :=
  id < nfa.size

/-- The states that can be reached from the start, breadth first. -/
def reachable (nfa : Nfa) : List Nat :=
  Graph.discover (targetsAt nfa.states) nfa.size [nfa.start]

/-- The states that silent edges lead to from some states, those included, in
ascending order. -/
def closure (nfa : Nfa) (seeds : List Nat) : List Nat :=
  (Graph.discover (silentTargetsAt nfa.states) nfa.size seeds).mergeSort

/-- The states that one byte leads to from some states, before silent edges. -/
def move (nfa : Nfa) (set : List Nat) (byte : UInt8) : List Nat :=
  set.flatMap (targetsOnAt nfa.states byte)

/-- The bytes that can be read from some states, in the order of their first edges. -/
def symbols (nfa : Nfa) (set : List Nat) : List UInt8 :=
  (OrderedSet.ofList ((set.flatMap nfa.edges).filterMap fun edge =>
    match edge.label with
    | .epsilon => none
    | .symbol byte => some byte)).toList

/-- The live states once some bytes have been read from a closed set. -/
def run (nfa : Nfa) : List Nat → List UInt8 → List Nat
  | set, [] => set
  | [], _ :: _ => []
  | set, byte :: rest => nfa.run (nfa.closure (nfa.move set byte)) rest

/-- The automaton accepts exactly the given bytes. -/
def accepts (nfa : Nfa) (input : List UInt8) : Bool :=
  (nfa.run (nfa.closure [nfa.start]) input).contains nfa.terminate

theorem run_nil (nfa : Nfa) (set : List Nat) : nfa.run set [] = set := by
  cases set <;> rfl

end Nfa

end ByteSignature
