import ByteSignature.Graph
import ByteSignature.Literal.Trie

/-!
# Failure links

To find literals anywhere in a payload, every node of the trie gets a failure node: the
node of the longest proper suffix that is also a prefix of some literal.  A node lends
its failure node's moves where it has no child of its own, and its failure node's
literal where none ends at the node itself.  Nodes are completed breadth first, so the
failure node, being shorter, is always complete before.

Moves into the root are left out: where a node has no move, the search starts over.
-/

namespace ByteSignature.Trie

/-- The failure node, the moves by ascending byte, and the literal of each node. -/
structure Links where
  failure : Array Nat
  moves : Array (List (UInt8 × Nat))
  output : Array UInt8

namespace Links

/-- The failure node of a node. -/
def failureOf (links : Links) (id : Nat) : Nat :=
  links.failure.getD id root

/-- The moves of a node. -/
def movesOf (links : Links) (id : Nat) : List (UInt8 × Nat) :=
  links.moves.getD id []

/-- The literal of a node. -/
def outputOf (links : Links) (id : Nat) : UInt8 :=
  links.output.getD id 0

end Links

/-- Pairs by ascending byte from two such lists.  The first list wins where both have a
byte. -/
def overlay : List (UInt8 × Nat) → List (UInt8 × Nat) → List (UInt8 × Nat)
  | [], second => second
  | first, [] => first
  | a :: first, b :: second =>
      if a.1 < b.1 then a :: overlay first (b :: second)
      else if b.1 < a.1 then b :: overlay (a :: first) second
      else a :: overlay first second
  termination_by first second => first.length + second.length

/-- Links that know nothing but where literals end. -/
def Links.initial (trie : Trie) : Links where
  failure := Array.replicate trie.size root
  moves := Array.replicate trie.size []
  output := trie.nodes.map Node.output

/-- Note the failure node of a child, and lend it that node's literal. -/
def Links.linkChild (links : Links) (child failure : Nat) : Links :=
  let own := links.outputOf child
  let lent := links.outputOf failure
  { failure := links.failure.setIfInBounds child failure
    moves := links.moves
    output := links.output.setIfInBounds child (if own = 0 then lent else own) }

/-- Complete the moves of a node, and link its children. -/
def Links.complete (trie : Trie) (links : Links) (id : Nat) : Links :=
  let children := (trie.node id).children
  let lent := if id = root then [] else links.movesOf (links.failureOf id)
  let links := { links with moves := links.moves.setIfInBounds id (overlay children lent) }
  children.foldl
    (fun links child => links.linkChild child.2 ((lent.lookup child.1).getD root)) links

/-- The nodes of a trie breadth first, children by ascending byte. -/
def order (trie : Trie) : List Nat :=
  Graph.discover (fun id => (trie.node id).children.map Prod.snd) trie.size [root]

/-- The links of a trie. -/
def links (trie : Trie) : Links :=
  trie.order.foldl (Links.complete trie) (Links.initial trie)

end ByteSignature.Trie
