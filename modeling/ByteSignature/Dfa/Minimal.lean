import ByteSignature.Dfa.Order
import ByteSignature.Dfa.Partition

/-!
# Minimization by refinement

The reachable states start in two blocks, the accepting states and the others.  A block
is split when some member's edge for a byte leads into another block than the first
member's edge does; two missing edges agree.  After each split the search starts over,
and when it finds nothing, every block becomes one state.
-/

namespace ByteSignature.Dfa

/-- The block that a state's edge for a byte leads into. -/
def targetBlock? (dfa : Dfa) (partition : Partition) (symbol : UInt8) (id : Nat) :
    Option Nat :=
  (dfa.target? id symbol).bind partition.blockOf?

/-- The bytes for which some states have edges, in the order of their first edges. -/
def symbolsOf (dfa : Dfa) (members : List Nat) : List UInt8 :=
  (OrderedSet.ofList ((members.flatMap fun id => (dfa.state id).edges).map Prod.fst)).toList

/-- The members of a block that agree with the first one on a byte, and the others. -/
def divide (dfa : Dfa) (partition : Partition) (members : List Nat) (symbol : UInt8) :
    List Nat × List Nat :=
  let reference := members.head?.bind (dfa.targetBlock? partition symbol)
  members.partition fun id => dfa.targetBlock? partition symbol id == reference

/-- The first byte on which a block disagrees, as the block left and the block moved. -/
def findSplit? (dfa : Dfa) (partition : Partition) (block : Nat) :
    Option (List Nat × List Nat) :=
  let members := partition.members block
  (dfa.symbolsOf members).findSome? fun symbol =>
    let parts := dfa.divide partition members symbol
    if parts.2.isEmpty then none else some parts

/-- Split the first block of the list on which some byte disagrees. -/
def refineOnce? (dfa : Dfa) (partition : Partition) : Option Partition :=
  partition.order.findSome? fun block =>
    (dfa.findSplit? partition block).map fun parts =>
      partition.split block parts.1 parts.2

/-- Split until nothing disagrees, at most the given number of times. -/
def refine (dfa : Dfa) : Nat → Partition → Partition
  | 0, partition => partition
  | splits + 1, partition =>
      match dfa.refineOnce? partition with
      | none => partition
      | some next => dfa.refine splits next

/-- The reachable accepting states and the other reachable states. -/
def initialPartition (dfa : Dfa) : Partition :=
  let parts := dfa.order.partition dfa.isAccepting
  [parts.1, parts.2].foldl
    (fun partition members =>
      if members.isEmpty then partition else partition.push members)
    (.empty dfa.size)

/-- The automaton whose states are the blocks of a partition in list order. -/
def merge (dfa : Dfa) (partition : Partition) : Dfa :=
  let place := Std.HashMap.ofList partition.order.zipIdx
  let placeOf (id : Nat) : Option Nat :=
    (partition.blockOf? id).map fun block => place.getD block 0
  let states := partition.order.map fun block =>
    let members := partition.members block
    let accepting := members.head?.any dfa.isAccepting
    (members.flatMap fun id => (dfa.state id).edges).foldl
      (fun state edge =>
        match placeOf edge.2 with
        | none => state
        | some target => state.addEdge edge.1 target)
      (State.isolated accepting)
  { states := states.toArray
    start := (placeOf dfa.start).getD 0 }

/-- The smallest automaton that accepts the same inputs, as long as each reachable
state can reach an accepting one.  A partition of `n` states is refined in fewer than
`n` splits. -/
def minimize (dfa : Dfa) : Dfa :=
  if dfa.size = 0 then
    .empty
  else
    dfa.merge (dfa.refine dfa.order.length dfa.initialPartition)

end ByteSignature.Dfa
