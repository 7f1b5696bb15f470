/-!
# Partitions in list order

A partition of some states into blocks.  Blocks are numbered in the order in which they
come into being and are linked into a circle, each to the block before it and to the one
behind it.  A new block goes between two others by changing their links: to the end, which
is before the first block, or right behind the block that it is split off.
-/

namespace ByteSignature

/-- The members of a block, and the numbers of the blocks next to it. -/
structure Partition.Block where
  members : List Nat
  previous : Nat
  next : Nat
  deriving DecidableEq, Repr

/-- Blocks by number, the number of the first block, and the block of each state. -/
structure Partition where
  blocks : Array Partition.Block
  head? : Option Nat
  index : Array (Option Nat)
  deriving DecidableEq, Repr

namespace Partition

/-- The partition of nothing, with room for the states below a number. -/
def empty (stateCount : Nat) : Partition where
  blocks := #[]
  head? := none
  index := Array.replicate stateCount none

/-- The number of blocks. -/
def size (partition : Partition) : Nat :=
  partition.blocks.size

/-- A block; where there is none, one without members. -/
def block (partition : Partition) (id : Nat) : Block :=
  partition.blocks.getD id ⟨[], 0, 0⟩

/-- The members of a block. -/
def members (partition : Partition) (block : Nat) : List Nat :=
  (partition.block block).members

/-- The block before another in the circle. -/
def previous (partition : Partition) (block : Nat) : Nat :=
  (partition.block block).previous

/-- The block behind another in the circle. -/
def next (partition : Partition) (block : Nat) : Nat :=
  (partition.block block).next

/-- The block of a state. -/
def blockOf? (partition : Partition) (state : Nat) : Option Nat :=
  partition.index.getD state none

/-- Note the block of some states. -/
def assign (index : Array (Option Nat)) (members : List Nat) (block : Nat) :
    Array (Option Nat) :=
  members.foldl (fun index member => index.setIfInBounds member (some block)) index

/-- Add a block and link it between two others.  Its number is the size before, and it may
be linked to itself. -/
def insertBetween (partition : Partition) (previous next : Nat) (members : List Nat) :
    Partition where
  blocks :=
    ((partition.blocks.push ⟨members, previous, next⟩).modify previous fun block =>
      { block with next := partition.size }).modify next fun block =>
        { block with previous := partition.size }
  head? := partition.head?
  index := assign partition.index members partition.size

/-- Add a block at the end of the list. -/
def push (partition : Partition) (members : List Nat) : Partition :=
  match partition.head? with
  | none =>
      { partition.insertBetween partition.size partition.size members with
        head? := some partition.size }
  | some head => partition.insertBetween (partition.previous head) head members

/-- Let a block have other members. -/
def setMembers (partition : Partition) (block : Nat) (members : List Nat) : Partition :=
  { partition with blocks := partition.blocks.modify block fun old => { old with members } }

/-- Leave `stay` in a block and list a new block of the `moved` members behind it. -/
def split (partition : Partition) (block : Nat) (stay moved : List Nat) : Partition :=
  (partition.setMembers block stay).insertBetween block (partition.next block) moved

/-- The blocks from the current one on, up to the head of the circle.  There is no answer
when the head does not come up within the given number of steps. -/
def follow? (partition : Partition) (head : Nat) : (steps current : Nat) → Option (List Nat)
  | 0, current => if current = head then some [] else none
  | steps + 1, current =>
      if current = head then some []
      else (partition.follow? head steps (partition.next current)).map (current :: ·)

/-- The blocks in list order, from the first one around the circle.  When the first block
does not come up again within one step for each block, the links never lead back to it. -/
def ids? (partition : Partition) : Option (List Nat) :=
  match partition.head? with
  | none => some []
  | some head =>
      (partition.follow? head partition.size (partition.next head)).map (head :: ·)

/-- The blocks in list order, and none where the links do not lead around. -/
def order (partition : Partition) : List Nat :=
  partition.ids?.getD []

@[simp]
theorem size_insertBetween (partition : Partition) (previous next : Nat)
    (members : List Nat) :
    (partition.insertBetween previous next members).size = partition.size + 1 := by
  simp [insertBetween, size]

@[simp]
theorem size_push (partition : Partition) (members : List Nat) :
    (partition.push members).size = partition.size + 1 := by
  unfold push
  split
  · exact size_insertBetween ..
  · exact size_insertBetween ..

@[simp]
theorem size_setMembers (partition : Partition) (block : Nat) (members : List Nat) :
    (partition.setMembers block members).size = partition.size := by
  simp [setMembers, size]

@[simp]
theorem size_split (partition : Partition) (block : Nat) (stay moved : List Nat) :
    (partition.split block stay moved).size = partition.size + 1 := by
  simp [split]

end Partition

end ByteSignature
