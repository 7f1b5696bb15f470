import ByteSignature.OrderedSet

/-!
# Discovery in a finite graph

Nodes are numbers and the edges of a node are given as a list.  Starting from some
nodes, discovery lists every node that can be reached, each once, in breadth-first
order: the starting nodes first, then the targets of the first listed node, and so
on.
-/

namespace ByteSignature.Graph

/-- Visit the listed nodes from position `next` on, appending their unlisted targets.
One round visits one node. -/
def discoverFrom (successors : Nat → List Nat) :
    (rounds next : Nat) → OrderedSet Nat → OrderedSet Nat
  | 0, _, found => found
  | rounds + 1, next, found =>
      match found.items[next]? with
      | none => found
      | some node =>
          discoverFrom successors rounds (next + 1) (found.insertMany (successors node))

/-- The nodes reachable from `seeds` in breadth-first order.  A graph whose nodes are
the numbers below `count` is exhausted after `count` rounds, because each round
visits another node. -/
def discover (successors : Nat → List Nat) (count : Nat) (seeds : List Nat) : List Nat :=
  (discoverFrom successors count 0 (OrderedSet.ofList seeds)).toList

theorem nodup_discover (successors : Nat → List Nat) (count : Nat) (seeds : List Nat) :
    (discover successors count seeds).Nodup :=
  OrderedSet.nodup_toList _

end ByteSignature.Graph
