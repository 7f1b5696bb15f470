import ByteSignature.Dfa.Basic
import Std.Data.HashMap.Lemmas

/-!
# The canonical numbering of an automaton

The reachable states of an automaton are put into breadth-first order, the edges of a
state being followed by ascending byte.  Numbering the states by their place in that
order describes the automaton without regard to how it was put together.
-/

namespace ByteSignature.Dfa

/-- The reachable states, start first, breadth first by ascending byte. -/
def order (dfa : Dfa) : List Nat :=
  if dfa.size = 0 then [] else Graph.discover dfa.sortedTargets dfa.size [dfa.start]

/-- Everything that can be reached is a state. -/
def isClosed (dfa : Dfa) : Bool :=
  dfa.order.all dfa.hasState

/-- The place of each state in the canonical order. -/
def places (dfa : Dfa) : Std.HashMap Nat Nat :=
  Std.HashMap.ofList dfa.order.zipIdx

/-- One state of a description: whether inputs may end there, and its edges by
ascending byte, with targets as places. -/
structure ShapeState where
  accepting : Bool
  edges : List (UInt8 × Nat)
  deriving DecidableEq, Repr

/-- The description of the reachable automaton by places in the canonical order. -/
def shape (dfa : Dfa) : List ShapeState :=
  let places := dfa.places
  dfa.order.map fun id =>
    { accepting := dfa.isAccepting id
      edges := (dfa.state id).sortedEdges.map fun edge =>
        (edge.1, places.getD edge.2 0) }

@[simp]
theorem length_shape (dfa : Dfa) : dfa.shape.length = dfa.order.length := by
  simp [shape]

theorem nodup_order (dfa : Dfa) : dfa.order.Nodup := by
  unfold order
  split
  · exact List.nodup_nil
  · exact Graph.nodup_discover _ _ _

end ByteSignature.Dfa
