import ByteSignature.Literal.Set

/-!
# Literal tries

The nodes of a trie stand for the prefixes of its literals.  Nodes are numbered in the
order in which the literals, taken from left to right, first need them; the root is
node 0.  A node where a literal ends carries the id of the first such literal.
-/

namespace ByteSignature

namespace Trie

/-- The children of a node by ascending byte, and the id of the literal that ends
there, or zero. -/
structure Node where
  children : List (UInt8 × Nat)
  output : UInt8
  deriving DecidableEq, Repr

instance : Inhabited Node :=
  ⟨⟨[], 0⟩⟩

/-- Put a pair into a list ordered by ascending byte. -/
def insertSorted {α : Type} (symbol : UInt8) (value : α) :
    List (UInt8 × α) → List (UInt8 × α)
  | [] => [(symbol, value)]
  | pair :: pairs =>
      if symbol < pair.1 then (symbol, value) :: pair :: pairs
      else pair :: insertSorted symbol value pairs

end Trie

/-- Nodes by number. -/
structure Trie where
  nodes : Array Trie.Node
  deriving DecidableEq, Repr

namespace Trie

/-- The number of the root. -/
def root : Nat :=
  0

/-- The trie of no literals, which has the root alone. -/
def empty : Trie :=
  ⟨#[⟨[], 0⟩]⟩

/-- The number of nodes. -/
def size (trie : Trie) : Nat :=
  trie.nodes.size

/-- A node; where there is none, one without children. -/
def node (trie : Trie) (id : Nat) : Node :=
  trie.nodes.getD id default

/-- The child of a node for a byte. -/
def child? (trie : Trie) (id : Nat) (symbol : UInt8) : Option Nat :=
  (trie.node id).children.lookup symbol

/-- Add a child to a node. -/
def addChild (trie : Trie) (id : Nat) (symbol : UInt8) : Trie :=
  let child := trie.size
  { nodes :=
      (trie.nodes.modify id fun node =>
        { node with children := insertSorted symbol child node.children }).push default }

/-- Add the nodes for some bytes below a node, and find the last of them. -/
def extend (trie : Trie) (id : Nat) : List UInt8 → Trie × Nat
  | [] => (trie, id)
  | symbol :: rest =>
      match trie.child? id symbol with
      | some child => trie.extend child rest
      | none =>
          let child := trie.size
          (trie.addChild id symbol).extend child rest

/-- Give an id to a node that has none. -/
def mark (trie : Trie) (id : Nat) (output : UInt8) : Trie where
  nodes := trie.nodes.modify id fun node =>
    if node.output = 0 then { node with output } else node

/-- Add a literal with its id. -/
def insert (trie : Trie) (literal : List UInt8) (id : UInt8) : Trie :=
  let extended := trie.extend root literal
  extended.1.mark extended.2 id

/-- The trie of a literal set. -/
def ofSet (set : LiteralSet) : Trie :=
  set.toList.zipIdx.foldl
    (fun trie literal => trie.insert literal.1 (literal.2 + 1).toUInt8) empty

end Trie

end ByteSignature
