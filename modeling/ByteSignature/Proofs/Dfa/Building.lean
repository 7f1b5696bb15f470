import ByteSignature.Proofs.Dfa.Partition

/-!
# Partitions as they are built

A partition comes into being by pushing blocks of members that no block has yet and by
splitting blocks in two.  However often this is done and in whatever order, its links lead
around all blocks in one circle, and following them lists every block once, starting with the
one that was pushed first.
-/

namespace ByteSignature.Partition

variable {partition : Partition} {stateCount : Nat}

/-- Some states may become a further block: there is at least one, there is room for them, and
no block has any of them. -/
structure Fresh (partition : Partition) (stateCount : Nat) (members : List Nat) : Prop where
  nonempty : members ≠ []
  inside : ∀ id ∈ members, id < stateCount
  notHeld : ∀ id ∈ members, ∀ block < partition.size, id ∉ partition.members block

/-- The members of a block are divided between two lists that are not empty. -/
structure Halves (partition : Partition) (block : Nat) (stay moved : List Nat) : Prop where
  block_lt : block < partition.size
  stay_ne_nil : stay ≠ []
  moved_ne_nil : moved ≠ []
  disjoint : ∀ id ∈ moved, id ∉ stay
  mem_iff : ∀ id, id ∈ partition.members block ↔ id ∈ stay ∨ id ∈ moved

/-- A partition of states below a number has come into being by pushing and splitting. -/
inductive Built (stateCount : Nat) : Partition → Prop where
  | empty : Built stateCount (.empty stateCount)
  | push {partition : Partition} {members : List Nat} (built : Built stateCount partition)
      (fresh : partition.Fresh stateCount members) : Built stateCount (partition.push members)
  | split {partition : Partition} {block : Nat} {stay moved : List Nat}
      (built : Built stateCount partition) (halves : partition.Halves block stay moved) :
      Built stateCount (partition.split block stay moved)

/-- Some block has the state. -/
def Holds (partition : Partition) (id : Nat) : Prop :=
  ∃ block < partition.size, id ∈ partition.members block

theorem Parts.mem_iff_holds {all : List Nat} (parts : Parts partition all) {id : Nat} :
    id ∈ all ↔ partition.Holds id := by
  simp only [parts.mem_all_iff, parts.blockOf?_iff, Holds]

theorem Parts.push_fresh {all members : List Nat} (parts : Parts partition all)
    (size_eq : partition.index.size = stateCount) (fresh : partition.Fresh stateCount members) :
    Parts (partition.push members) (all ++ members) := by
  apply parts.push fresh.nonempty (size_eq ▸ fresh.inside)
  intro id idMem held
  obtain ⟨block, blockLt, blockMem⟩ := parts.mem_iff_holds.mp held
  exact fresh.notHeld id idMem block blockLt blockMem

theorem Parts.split_halves {all stay moved : List Nat} {block : Nat} (parts : Parts partition all)
    (halves : partition.Halves block stay moved) :
    Parts (partition.split block stay moved) all :=
  parts.split halves.block_lt halves.stay_ne_nil halves.moved_ne_nil halves.disjoint
    halves.mem_iff

namespace Built

theorem size_index (built : Built stateCount partition) : partition.index.size = stateCount := by
  induction built with
  | empty => exact Array.size_replicate
  | push _ _ ih => rw [size_index_push, ih]
  | split _ _ ih => rw [size_index_split, ih]

theorem exists_parts (built : Built stateCount partition) : ∃ all, Parts partition all := by
  induction built with
  | empty => exact ⟨[], parts_empty stateCount⟩
  | push built fresh ih =>
      obtain ⟨all, parts⟩ := ih
      exact ⟨_, parts.push_fresh built.size_index fresh⟩
  | split _ halves ih =>
      obtain ⟨all, parts⟩ := ih
      exact ⟨all, parts.split_halves halves⟩

/-- The block that was pushed first stays the first one listed. -/
theorem head?_order (built : Built stateCount partition) (pos : 0 < partition.size) :
    partition.order.head? = some 0 := by
  induction built with
  | empty => exact absurd pos (Nat.lt_irrefl 0)
  | @push partition members built fresh ih =>
      obtain ⟨all, parts⟩ := built.exists_parts
      rw [(parts.circle_push members).order_eq, List.head?_append]
      by_cases pos : 0 < partition.size
      · rw [ih pos]
        rfl
      · have size_eq : partition.size = 0 := by omega
        have order_eq : partition.order = [] :=
          List.eq_nil_of_length_eq_zero (parts.circle.length_eq.trans size_eq)
        rw [order_eq, size_eq]
        rfl
  | @split partition block stay moved built halves ih =>
      obtain ⟨all, parts⟩ := built.exists_parts
      obtain ⟨before, after, order_eq, circle⟩ :=
        parts.exists_circle_split halves.block_lt stay moved
      have head_eq := ih (Nat.zero_lt_of_lt halves.block_lt)
      rw [order_eq, Circle.head?_append_cons] at head_eq
      rw [circle.order_eq, Circle.head?_append_cons, head_eq]

end Built

/-- The list of blocks and the index tell what the blocks are: the links lead around the listed
blocks in one circle, which is followed from the block that was pushed first and lists each
block once, blocks have members and share none, and the index knows the block of each. -/
structure Listed (partition : Partition) (listed : List Nat) : Prop where
  ids?_eq : partition.ids? = some listed
  circle : partition.Circle listed
  head?_eq : 0 < partition.size → listed.head? = some 0
  length_eq : partition.size = listed.length
  nonempty : ∀ block < partition.size, partition.members block ≠ []
  disjoint : ∀ block < partition.size, ∀ block2 < partition.size, ∀ id,
    id ∈ partition.members block → id ∈ partition.members block2 → block = block2
  blockOf?_iff : ∀ id block : Nat, partition.blockOf? id = some block ↔
    block < partition.size ∧ id ∈ partition.members block

theorem Built.listed_order (built : Built stateCount partition) :
    partition.Listed partition.order := by
  obtain ⟨all, parts⟩ := built.exists_parts
  constructor
  · exact parts.circle.ids?_eq
  · exact parts.circle
  · exact built.head?_order
  · exact parts.circle.length_eq.symm
  · exact parts.nonempty
  · intro block blockLt block2 block2Lt id idMem id2Mem
    have inBlock := (parts.blockOf?_iff id block).mpr ⟨blockLt, idMem⟩
    have inBlock2 := (parts.blockOf?_iff id block2).mpr ⟨block2Lt, id2Mem⟩
    exact Option.some.inj (inBlock.symm.trans inBlock2)
  · exact parts.blockOf?_iff

/-- A partition that is built by pushing and splitting lists all its blocks.  Pushing lists the
new block last, and splitting lists it right behind the old one and leaves the others where
they were; both give the blocks their members, and splitting keeps the members of all blocks
taken together. -/
theorem listed_of_built (built : Built stateCount partition) :
    ∃ listed, partition.Listed listed ∧
      (∀ members, partition.Fresh stateCount members →
        (partition.push members).Listed (listed ++ [partition.size]) ∧
          ∀ block, (partition.push members).members block =
            if block = partition.size then members else partition.members block) ∧
      ∀ block stay moved, partition.Halves block stay moved →
        (∃ before after, listed = before ++ block :: after ∧
          (partition.split block stay moved).Listed
            (before ++ block :: partition.size :: after)) ∧
        (∀ other, (partition.split block stay moved).members other =
          if other = partition.size then moved
          else if other = block then stay else partition.members other) ∧
        ∀ id, (partition.split block stay moved).Holds id ↔ partition.Holds id := by
  obtain ⟨all, parts⟩ := built.exists_parts
  refine ⟨partition.order, built.listed_order, ?_, ?_⟩
  · intro members fresh
    have pushed := (built.push fresh).listed_order
    rw [(parts.circle_push members).order_eq] at pushed
    exact ⟨pushed, members_push members⟩
  · intro block stay moved halves
    have isSplit := (built.split halves).listed_order
    obtain ⟨before, after, order_eq, circle⟩ :=
      parts.exists_circle_split halves.block_lt stay moved
    rw [circle.order_eq] at isSplit
    refine ⟨⟨before, after, order_eq, isSplit⟩, members_split halves.block_lt stay moved, ?_⟩
    intro id
    rw [← (parts.split_halves halves).mem_iff_holds, parts.mem_iff_holds]

/-- The states 0 and 1 are pushed before 2, 3 and 4, and are then split. -/
def spliced : Partition :=
  (((empty 6).push [0, 1]).push [2, 3, 4]).split 0 [0] [1]

/-- The third block is listed between the first two, and a fourth one behind them. -/
theorem listed_of_built_spliced : Built 6 spliced ∧ spliced.ids? = some [0, 2, 1] ∧
    spliced.blockOf? 1 = some 2 ∧ spliced.Fresh 6 [5] ∧
    (spliced.push [5]).ids? = some [0, 2, 1, 3] := by
  have built : Built 6 spliced := by
    apply Built.split
    · apply Built.push
      · exact .push .empty ⟨by decide, by decide, by decide⟩
      · exact ⟨by decide, by decide, by decide⟩
    · refine ⟨by decide, by decide, by decide, by decide, ?_⟩
      intro id
      rw [show (((empty 6).push [0, 1]).push [2, 3, 4]).members 0 = [0, 1] by decide,
        List.mem_pair, List.mem_singleton, List.mem_singleton]
  have fresh : spliced.Fresh 6 [5] := ⟨by decide, by decide, by decide⟩
  have ids : spliced.ids? = some [0, 2, 1] := by decide
  obtain ⟨listed, isListed, push, -⟩ := listed_of_built built
  have listed_eq : listed = [0, 2, 1] :=
    Option.some.inj (isListed.ids?_eq.symm.trans ids)
  have size_eq : spliced.size = 3 := by rw [isListed.length_eq, listed_eq]; rfl
  refine ⟨built, ids, (isListed.blockOf?_iff 1 2).mpr ⟨by rw [size_eq]; decide, by decide⟩, fresh,
    ?_⟩
  rw [(push [5] fresh).1.ids?_eq, listed_eq, size_eq]
  rfl

end ByteSignature.Partition
