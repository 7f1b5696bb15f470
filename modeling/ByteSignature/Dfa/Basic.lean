import ByteSignature.Graph

/-!
# Deterministic automata

States are numbered from zero.  A state has at most one edge for each byte, kept in
the order in which the edges were added; where it has none, there is no way on.  The
start and the targets are plain numbers, which need not be those of states while an
automaton is being put together.
-/

namespace ByteSignature

namespace Dfa

/-- The edges of a state, earliest first and at most one for each byte, and whether
inputs may end there. -/
structure State where
  edges : List (UInt8 × Nat)
  accepting : Bool
  nodup_symbols : (edges.map Prod.fst).Nodup
  deriving DecidableEq, Repr

namespace State

/-- A state without edges. -/
def isolated (accepting : Bool) : State :=
  ⟨[], accepting, List.nodup_nil⟩

instance : Inhabited State :=
  ⟨isolated false⟩

/-- The target of the edge for a byte. -/
def target? (state : State) (symbol : UInt8) : Option Nat :=
  state.edges.lookup symbol

/-- Add an edge behind the others.  A byte that has an edge keeps it. -/
def addEdge (state : State) (symbol : UInt8) (target : Nat) : State :=
  if h : symbol ∈ state.edges.map Prod.fst then
    state
  else {
    edges := state.edges ++ [(symbol, target)]
    accepting := state.accepting
    nodup_symbols := by
      rw [List.map_append, List.nodup_append]
      refine ⟨state.nodup_symbols, by simp, ?_⟩
      rintro other hother last hlast rfl
      rw [List.map_singleton, List.mem_singleton] at hlast
      subst hlast
      exact h hother }

/-- The edges by ascending byte. -/
def sortedEdges (state : State) : List (UInt8 × Nat) :=
  state.edges.mergeSort fun first second => first.1 ≤ second.1

@[simp]
theorem accepting_addEdge (state : State) (symbol : UInt8) (target : Nat) :
    (state.addEdge symbol target).accepting = state.accepting := by
  unfold addEdge
  split <;> rfl

end State

end Dfa

/-- States by number, and the number of the start. -/
structure Dfa where
  states : Array Dfa.State
  start : Nat
  deriving DecidableEq, Repr

namespace Dfa

/-- An automaton without states.  The first state added is its start. -/
def empty : Dfa :=
  ⟨#[], 0⟩

/-- The number of states. -/
def size (dfa : Dfa) : Nat :=
  dfa.states.size

/-- The number belongs to a state. -/
def hasState (dfa : Dfa) (id : Nat) : Bool :=
  id < dfa.size

/-- A state; where there is none, one without edges. -/
def state (dfa : Dfa) (id : Nat) : State :=
  dfa.states.getD id (.isolated false)

/-- Inputs may end in the state. -/
def isAccepting (dfa : Dfa) (id : Nat) : Bool :=
  (dfa.state id).accepting

/-- The target of a state's edge for a byte. -/
def target? (dfa : Dfa) (id : Nat) (symbol : UInt8) : Option Nat :=
  (dfa.state id).target? symbol

/-- The targets of a state by ascending byte. -/
def sortedTargets (dfa : Dfa) (id : Nat) : List Nat :=
  (dfa.state id).sortedEdges.map Prod.snd

/-- Add a state without edges.  Its number is the size before. -/
def addState (dfa : Dfa) (accepting : Bool) : Dfa :=
  { dfa with states := dfa.states.push (.isolated accepting) }

/-- Let inputs end in a state or not. -/
def setAccepting (dfa : Dfa) (id : Nat) (accepting : Bool) : Dfa :=
  { dfa with states := dfa.states.modify id fun state => { state with accepting } }

/-- Add an edge to a state.  A byte that has an edge keeps it. -/
def addEdge (dfa : Dfa) (id : Nat) (symbol : UInt8) (target : Nat) : Dfa :=
  { dfa with states := dfa.states.modify id fun state => state.addEdge symbol target }

/-- Add an edge and tell whether the byte had none. -/
def tryAddEdge (dfa : Dfa) (id : Nat) (symbol : UInt8) (target : Nat) : Bool × Dfa :=
  ((dfa.target? id symbol).isNone, dfa.addEdge id symbol target)

/-- The state that some bytes lead to from a state. -/
def walkFrom (dfa : Dfa) : Nat → List UInt8 → Option Nat
  | id, [] => some id
  | id, symbol :: rest =>
      match dfa.target? id symbol with
      | none => none
      | some next => dfa.walkFrom next rest

/-- The state that some bytes lead to from the start.  Without states there is none. -/
def walk (dfa : Dfa) (input : List UInt8) : Option Nat :=
  if dfa.size = 0 then none else dfa.walkFrom dfa.start input

/-- The automaton accepts exactly the given bytes. -/
def accepts (dfa : Dfa) (input : List UInt8) : Bool :=
  match dfa.walk input with
  | none => false
  | some id => dfa.isAccepting id

@[simp]
theorem size_addState (dfa : Dfa) (accepting : Bool) :
    (dfa.addState accepting).size = dfa.size + 1 := by
  simp [addState, size]

@[simp]
theorem size_addEdge (dfa : Dfa) (id : Nat) (symbol : UInt8) (target : Nat) :
    (dfa.addEdge id symbol target).size = dfa.size := by
  simp [addEdge, size]

theorem walkFrom_append (dfa : Dfa) (id : Nat) (first second : List UInt8) :
    dfa.walkFrom id (first ++ second) =
      (dfa.walkFrom id first).bind fun next => dfa.walkFrom next second := by
  induction first generalizing id with
  | nil => rfl
  | cons symbol rest ih =>
      simp only [List.cons_append, walkFrom]
      split
      · rfl
      · exact ih _

/-! ## Numbers that belong to no state

The following questions have no answer when they come upon a number that belongs to
no state.
-/

/-- The state that some bytes lead to from a state, every state on the way being
looked up. -/
def checkedWalkFrom (dfa : Dfa) : Nat → List UInt8 → Option (Option Nat)
  | id, [] => some (some id)
  | id, symbol :: rest =>
      if dfa.hasState id then
        match dfa.target? id symbol with
        | none => some none
        | some next => dfa.checkedWalkFrom next rest
      else
        none

/-- `walk`, where every state on the way is looked up. -/
def checkedWalk (dfa : Dfa) (input : List UInt8) : Option (Option Nat) :=
  if dfa.size = 0 then some none else dfa.checkedWalkFrom dfa.start input

/-- `accepts`, where every state on the way and the last one are looked up. -/
def checkedAccepts (dfa : Dfa) (input : List UInt8) : Option Bool :=
  match dfa.checkedWalk input with
  | none => none
  | some none => some false
  | some (some id) => if dfa.hasState id then some (dfa.isAccepting id) else none

end Dfa

end ByteSignature
