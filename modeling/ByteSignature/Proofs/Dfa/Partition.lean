import ByteSignature.Proofs.Dfa.Circle
import Mathlib.Data.List.Perm.Subperm

/-!
# Partitions hold together

The circle of links names every block once, no block is empty, and the index knows exactly
the block of each member, so blocks do not overlap.  Pushing a block of new members and
splitting a block in two keep all of this.
-/

namespace ByteSignature.Partition

/-! ## The index -/

theorem size_assign (index : Array (Option Nat)) (members : List Nat) (block : Nat) :
    (assign index members block).size = index.size := by
  induction members generalizing index with
  | nil => rfl
  | cons member members ih =>
      exact (ih (index.setIfInBounds member (some block))).trans Array.size_setIfInBounds

theorem getD_assign {index : Array (Option Nat)} {members : List Nat}
    (inside : ∀ id ∈ members, id < index.size) (block id : Nat) :
    (assign index members block).getD id none =
      if id ∈ members then some block else index.getD id none := by
  induction members generalizing index with
  | nil => rfl
  | cons member members ih =>
      have memberLt : member < index.size := inside member List.mem_cons_self
      have step : assign index (member :: members) block =
          assign (index.setIfInBounds member (some block)) members block := rfl
      rw [step, ih (by simpa using fun id idMem => inside id (List.mem_cons_of_mem _ idMem))]
      by_cases isHead : id = member
      · simp [isHead, memberLt, Array.getD_eq_getD_getElem?]
      · simp [isHead, Ne.symm isHead, Array.getD_eq_getD_getElem?]

section Index

variable {partition : Partition}

theorem index_push (members : List Nat) :
    (partition.push members).index = assign partition.index members partition.size := by
  unfold push
  split <;> rfl

theorem size_index_push (members : List Nat) :
    (partition.push members).index.size = partition.index.size := by
  rw [index_push, size_assign]

theorem index_split (block : Nat) (stay moved : List Nat) :
    (partition.split block stay moved).index = assign partition.index moved partition.size := by
  rw [split, insertBetween, size_setMembers]
  rfl

theorem size_index_split (block : Nat) (stay moved : List Nat) :
    (partition.split block stay moved).index.size = partition.index.size := by
  rw [index_split, size_assign]

@[simp]
theorem size_empty (stateCount : Nat) : (empty stateCount).size = 0 :=
  rfl

@[simp]
theorem blockOf?_empty (stateCount id : Nat) : (empty stateCount).blockOf? id = none := by
  rw [blockOf?, empty, Array.getD_eq_getD_getElem?, Array.getElem?_replicate]
  split <;> rfl

theorem lt_of_blockOf?_eq_some {id block : Nat} (inBlock : partition.blockOf? id = some block) :
    id < partition.index.size := by
  rw [blockOf?, Array.getD_eq_getD_getElem?] at inBlock
  by_cases inside : id < partition.index.size
  · exact inside
  · rw [Array.getElem?_eq_none (Nat.not_lt.mp inside)] at inBlock
    cases inBlock

/-- The members of a pushed block are noted. -/
theorem blockOf?_push {members : List Nat} (inside : ∀ id ∈ members, id < partition.index.size)
    (id : Nat) : (partition.push members).blockOf? id =
      if id ∈ members then some partition.size else partition.blockOf? id := by
  rw [blockOf?, index_push, getD_assign inside]
  rfl

/-- Only the members of the new block are noted anew when a block is split. -/
theorem blockOf?_split {block : Nat} {stay moved : List Nat}
    (inside : ∀ id ∈ moved, id < partition.index.size) (id : Nat) :
    (partition.split block stay moved).blockOf? id =
      if id ∈ moved then some partition.size else partition.blockOf? id := by
  rw [blockOf?, index_split, getD_assign inside]
  rfl

theorem members_push (members : List Nat) (block : Nat) :
    (partition.push members).members block =
      if block = partition.size then members else partition.members block := by
  unfold push
  split <;> exact members_insertBetween ..

theorem members_split {block : Nat} (blockLt : block < partition.size)
    (stay moved : List Nat) (other : Nat) :
    (partition.split block stay moved).members other =
      if other = partition.size then moved
      else if other = block then stay else partition.members other := by
  rw [split, members_insertBetween, size_setMembers, members_setMembers blockLt]

end Index

/-! ## Parts -/

/-- The blocks partition the given members. -/
structure Parts (partition : Partition) (all : List Nat) : Prop where
  circle : partition.Circle partition.order
  nonempty : ∀ block < partition.size, partition.members block ≠ []
  blockOf?_iff : ∀ id block : Nat, partition.blockOf? id = some block ↔
    block < partition.size ∧ id ∈ partition.members block
  mem_all_iff : ∀ id : Nat, id ∈ all ↔ ∃ block, partition.blockOf? id = some block

theorem parts_empty (stateCount : Nat) : Parts (.empty stateCount) [] where
  circle := circle_empty stateCount
  nonempty := by simp
  blockOf?_iff := by simp
  mem_all_iff := by simp

namespace Parts

variable {partition : Partition} {all : List Nat}

/-- Only the members count, not their order. -/
theorem congr {all2 : List Nat} (parts : Parts partition all)
    (mem_iff : ∀ id, id ∈ all2 ↔ id ∈ all) : Parts partition all2 where
  circle := parts.circle
  nonempty := parts.nonempty
  blockOf?_iff := parts.blockOf?_iff
  mem_all_iff id := (mem_iff id).trans (parts.mem_all_iff id)

theorem nodup_order (parts : Parts partition all) : partition.order.Nodup :=
  parts.circle.nodup

theorem mem_order_iff (parts : Parts partition all) (block : Nat) :
    block ∈ partition.order ↔ block < partition.size :=
  parts.circle.mem_iff block

theorem mem_all_of_mem (parts : Parts partition all) {id block : Nat}
    (blockLt : block < partition.size) (idMem : id ∈ partition.members block) : id ∈ all :=
  (parts.mem_all_iff id).mpr ⟨block, (parts.blockOf?_iff id block).mpr ⟨blockLt, idMem⟩⟩

theorem lt_succ_and_iff {block size : Nat} {P : Prop} (notNew : block ≠ size) :
    block < size + 1 ∧ P ↔ block < size ∧ P := by
  apply and_congr_left
  intro _
  omega

/-- Pushing a block lists it last. -/
theorem circle_push (parts : Parts partition all) (members : List Nat) :
    Circle (partition.push members) (partition.order ++ [partition.size]) :=
  parts.circle.push members

/-- Splitting a block lists the new one right behind it. -/
theorem exists_circle_split (parts : Parts partition all) {block : Nat}
    (blockLt : block < partition.size) (stay moved : List Nat) :
    ∃ before after, partition.order = before ++ block :: after ∧
      Circle (partition.split block stay moved)
        (before ++ block :: partition.size :: after) := by
  obtain ⟨before, after, order_eq⟩ := List.append_of_mem ((parts.mem_order_iff block).mpr blockLt)
  have circle := parts.circle
  rw [order_eq] at circle
  exact ⟨before, after, order_eq, circle.split stay moved⟩

/-- New members form a further block. -/
theorem push (parts : Parts partition all) {members : List Nat} (nonempty : members ≠ [])
    (inside : ∀ id ∈ members, id < partition.index.size)
    (fresh : ∀ id ∈ members, id ∉ all) : Parts (partition.push members) (all ++ members) where
  circle := by
    have circle := parts.circle_push members
    rwa [circle.order_eq]
  nonempty := by
    intro block blockLt
    rw [size_push] at blockLt
    rw [members_push]
    by_cases isNew : block = partition.size
    · rwa [if_pos isNew]
    · rw [if_neg isNew]
      exact parts.nonempty block (by omega)
  blockOf?_iff := by
    intro id block
    rw [members_push, size_push, blockOf?_push inside]
    by_cases idMem : id ∈ members
    · have notOld : ∀ block < partition.size, id ∉ partition.members block :=
        fun block blockLt oldMem => fresh id idMem (parts.mem_all_of_mem blockLt oldMem)
      rw [if_pos idMem, Option.some.injEq]
      by_cases isNew : block = partition.size
      · simp [isNew, idMem]
      · rw [if_neg isNew, lt_succ_and_iff isNew]
        constructor
        · intro eq
          exact absurd eq.symm isNew
        · rintro ⟨blockLt, oldMem⟩
          exact absurd oldMem (notOld block blockLt)
    · rw [if_neg idMem, parts.blockOf?_iff]
      by_cases isNew : block = partition.size
      · simp [isNew, idMem]
      · rw [if_neg isNew, lt_succ_and_iff isNew]
  mem_all_iff := by
    intro id
    rw [List.mem_append, parts.mem_all_iff, blockOf?_push inside]
    by_cases idMem : id ∈ members
    · simp [idMem]
    · simp [idMem]

/-- The members of a block may be divided between it and a further block. -/
theorem split (parts : Parts partition all) {block : Nat} {stay moved : List Nat}
    (blockLt : block < partition.size) (stayNonempty : stay ≠ []) (movedNonempty : moved ≠ [])
    (disjoint : ∀ id ∈ moved, id ∉ stay)
    (mem_iff : ∀ id, id ∈ partition.members block ↔ id ∈ stay ∨ id ∈ moved) :
    Parts (partition.split block stay moved) all := by
  have blockOf?_of_mem {id : Nat} (idMem : id ∈ stay ∨ id ∈ moved) :
      partition.blockOf? id = some block :=
    (parts.blockOf?_iff id block).mpr ⟨blockLt, (mem_iff id).mpr idMem⟩
  have inside : ∀ id ∈ moved, id < partition.index.size := fun id idMoved =>
    lt_of_blockOf?_eq_some (blockOf?_of_mem (Or.inr idMoved))
  exact {
    circle := by
      obtain ⟨before, after, _, circle⟩ := parts.exists_circle_split blockLt stay moved
      rwa [circle.order_eq]
    nonempty := by
      intro other otherLt
      rw [size_split] at otherLt
      rw [members_split blockLt]
      split
      · exact movedNonempty
      · split
        · exact stayNonempty
        · exact parts.nonempty other (by omega)
    blockOf?_iff := by
      intro id other
      rw [members_split blockLt, size_split, blockOf?_split inside]
      by_cases idMoved : id ∈ moved
      · rw [if_pos idMoved, Option.some.injEq]
        by_cases isNew : other = partition.size
        · simp [isNew, idMoved]
        · rw [if_neg isNew, lt_succ_and_iff isNew]
          constructor
          · intro eq
            exact absurd eq.symm isNew
          · rintro ⟨otherLt, idMem⟩
            split at idMem
            · exact absurd idMem (disjoint id idMoved)
            · rename_i notBlock
              have placed := (parts.blockOf?_iff id other).mpr ⟨otherLt, idMem⟩
              rw [blockOf?_of_mem (Or.inr idMoved), Option.some.injEq] at placed
              exact absurd placed.symm notBlock
      · rw [if_neg idMoved, parts.blockOf?_iff]
        by_cases isNew : other = partition.size
        · simp [isNew, idMoved]
        · rw [if_neg isNew, lt_succ_and_iff isNew]
          apply and_congr_right
          intro _
          by_cases isBlock : other = block
          · rw [if_pos isBlock, isBlock, mem_iff]
            exact or_iff_left idMoved
          · rw [if_neg isBlock]
    mem_all_iff := by
      intro id
      rw [parts.mem_all_iff, blockOf?_split inside]
      by_cases idMoved : id ∈ moved
      · rw [if_pos idMoved]
        exact iff_of_true ⟨block, blockOf?_of_mem (Or.inr idMoved)⟩ ⟨_, rfl⟩
      · rw [if_neg idMoved] }

theorem exists_mem (parts : Parts partition all) {block : Nat} (blockLt : block < partition.size) :
    ∃ id, id ∈ partition.members block :=
  List.exists_mem_of_ne_nil _ (parts.nonempty block blockLt)

/-- There are no more blocks than members. -/
theorem size_le (parts : Parts partition all) : partition.size ≤ all.length := by
  have onto : List.range partition.size ⊆ all.filterMap fun id => partition.blockOf? id := by
    intro block blockMem
    have blockLt := List.mem_range.mp blockMem
    obtain ⟨id, idMem⟩ := parts.exists_mem blockLt
    exact List.mem_filterMap.mpr ⟨id, parts.mem_all_of_mem blockLt idMem,
      (parts.blockOf?_iff id block).mpr ⟨blockLt, idMem⟩⟩
  have bound := (List.subperm_of_subset List.nodup_range onto).length_le
  rw [List.length_range] at bound
  exact Nat.le_trans bound (List.length_filterMap_le _ _)

end Parts

end ByteSignature.Partition
