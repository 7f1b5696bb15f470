import ByteSignature.Dfa.Order
import ByteSignature.Table.Basic

/-!
# The table of an automaton

States are numbered by their place in the canonical order, so the start is state 0 and
equal descriptions give equal tables.  An entry whose target is accepting carries the
id of the pattern.
-/

namespace ByteSignature.Dfa

/-- The accept flag of an entry that leads into a state. -/
def acceptFlag (dfa : Dfa) (patternId : UInt8) (id : Nat) : UInt8 :=
  if dfa.isAccepting id then patternId else 0

/-- The entries of an automaton's table by state and ascending byte. -/
def tableEntries (dfa : Dfa) (patternId : UInt8) : List Table.Entry :=
  let places := dfa.places
  dfa.order.zipIdx.flatMap fun source =>
    (dfa.state source.1).sortedEdges.map fun edge =>
      { state := source.2.toUInt16
        symbol := edge.1
        next := (places.getD edge.2 0).toUInt16
        accept := dfa.acceptFlag patternId edge.2 }

end ByteSignature.Dfa
