import ByteSignature.Dfa.Partition
import Mathlib.Data.List.Chain
import Mathlib.Data.List.Nodup

/-!
# The circle of blocks

The links of a partition lead around all its blocks.  Following them from the first block
comes back to it and lists every block once.  A block linked in between two neighbours is
listed between them, so pushing lists the new block last and splitting lists it right behind
the old one, whatever the circle was; the other blocks keep their places.
-/

namespace ByteSignature.Partition

variable {partition : Partition}

/-! ## Links -/

theorem members_insertBetween (previous next : Nat) (members : List Nat) (block : Nat) :
    (partition.insertBetween previous next members).members block =
      if block = partition.size then members else partition.members block := by
  simp only [Partition.members, Partition.block, insertBetween, Array.getD_eq_getD_getElem?,
    Array.getElem?_modify, Array.getElem?_push, size]
  grind

theorem next_insertBetween {previous : Nat} (previousLe : previous ≤ partition.size) (next : Nat)
    (members : List Nat) (block : Nat) :
    (partition.insertBetween previous next members).next block =
      if block = previous then partition.size
      else if block = partition.size then next else partition.next block := by
  simp only [Partition.next, Partition.block, insertBetween, Array.getD_eq_getD_getElem?,
    Array.getElem?_modify, Array.getElem?_push, size] at previousLe ⊢
  grind

theorem previous_insertBetween {next : Nat} (nextLe : next ≤ partition.size) (previous : Nat)
    (members : List Nat) (block : Nat) :
    (partition.insertBetween previous next members).previous block =
      if block = next then partition.size
      else if block = partition.size then previous else partition.previous block := by
  simp only [Partition.previous, Partition.block, insertBetween, Array.getD_eq_getD_getElem?,
    Array.getElem?_modify, Array.getElem?_push, size] at nextLe ⊢
  grind

theorem members_setMembers {block : Nat} (blockLt : block < partition.size) (members : List Nat)
    (other : Nat) : (partition.setMembers block members).members other =
      if other = block then members else partition.members other := by
  simp only [Partition.members, Partition.block, setMembers, Array.getD_eq_getD_getElem?,
    Array.getElem?_modify, size] at blockLt ⊢
  grind

theorem next_setMembers (block : Nat) (members : List Nat) (other : Nat) :
    (partition.setMembers block members).next other = partition.next other := by
  simp only [Partition.next, Partition.block, setMembers, Array.getD_eq_getD_getElem?,
    Array.getElem?_modify]
  grind

theorem previous_setMembers (block : Nat) (members : List Nat) (other : Nat) :
    (partition.setMembers block members).previous other = partition.previous other := by
  simp only [Partition.previous, Partition.block, setMembers, Array.getD_eq_getD_getElem?,
    Array.getElem?_modify]
  grind

/-! ## Circles -/

/-- The two blocks are linked to each other. -/
def Linked (partition : Partition) (first second : Nat) : Prop :=
  partition.next first = second ∧ partition.previous second = first

section InsertBetween

variable {first other block second : Nat}

/-- A link between other blocks stays when a block is linked in between two neighbours. -/
theorem Linked.insertBetween (old : partition.Linked first other)
    (linked : partition.Linked block second) (firstLt : first < partition.size)
    (otherLt : other < partition.size) (blockLt : block < partition.size)
    (secondLt : second < partition.size) (firstNe : first ≠ block) {members : List Nat} :
    (partition.insertBetween block second members).Linked first other := by
  have otherNe : other ≠ second := by
    rintro rfl
    exact firstNe (old.2.symm.trans linked.2)
  constructor
  · rw [next_insertBetween (Nat.le_of_lt blockLt), if_neg firstNe, if_neg (Nat.ne_of_lt firstLt),
      old.1]
  · rw [previous_insertBetween (Nat.le_of_lt secondLt), if_neg otherNe,
      if_neg (Nat.ne_of_lt otherLt), old.2]

theorem linked_insertBetween_before (blockLt : block < partition.size)
    (secondLt : second < partition.size) (members : List Nat) :
    (partition.insertBetween block second members).Linked block partition.size := by
  constructor
  · rw [next_insertBetween (Nat.le_of_lt blockLt), if_pos rfl]
  · rw [previous_insertBetween (Nat.le_of_lt secondLt), if_neg (Nat.ne_of_gt secondLt), if_pos rfl]

theorem linked_insertBetween_behind (blockLt : block < partition.size)
    (secondLt : second < partition.size) (members : List Nat) :
    (partition.insertBetween block second members).Linked partition.size second := by
  constructor
  · rw [next_insertBetween (Nat.le_of_lt blockLt), if_neg (Nat.ne_of_gt blockLt), if_pos rfl]
  · rw [previous_insertBetween (Nat.le_of_lt secondLt), if_pos rfl]

end InsertBetween

/-- The links lead from each listed block to the one listed behind it and back, and from the
last one to the first.  All blocks are listed, each of them once. -/
structure Circle (partition : Partition) (listed : List Nat) : Prop where
  head?_eq : partition.head? = listed.head?
  linked : (listed ++ listed.head?.toList).IsChain partition.Linked
  nodup : listed.Nodup
  mem_iff : ∀ block, block ∈ listed ↔ block < partition.size

theorem circle_empty (stateCount : Nat) : Circle (empty stateCount) [] where
  head?_eq := rfl
  linked := List.isChain_nil
  nodup := List.nodup_nil
  mem_iff := by simp [empty, size]

namespace Circle

variable {listed : List Nat}

theorem length_eq (circle : Circle partition listed) : listed.length = partition.size := by
  have perm : listed.Perm (List.range partition.size) := by
    rw [List.perm_ext_iff_of_nodup circle.nodup List.nodup_range]
    intro block
    rw [circle.mem_iff, List.mem_range]
  simpa using perm.length_eq

/-- Only the links count, not the members. -/
theorem congr {partition2 : Partition} (circle : Circle partition listed)
    (head?_eq : partition2.head? = partition.head?) (size_eq : partition2.size = partition.size)
    (next_eq : ∀ block, partition2.next block = partition.next block)
    (previous_eq : ∀ block, partition2.previous block = partition.previous block) :
    Circle partition2 listed where
  head?_eq := head?_eq.trans circle.head?_eq
  linked := circle.linked.imp fun first second linked =>
    ⟨(next_eq first).trans linked.1, (previous_eq second).trans linked.2⟩
  nodup := circle.nodup
  mem_iff := by simpa [size_eq] using circle.mem_iff

/-! ## Following the links -/

/-- Following links from a block lists what lies between it and the head. -/
theorem follow?_eq_some {head before : Nat} {between : List Nat} {steps : Nat}
    (linked : (before :: between ++ [head]).IsChain partition.Linked)
    (headNotMem : head ∉ between) (enough : between.length ≤ steps) :
    partition.follow? head steps (partition.next before) = some between := by
  induction between generalizing before steps with
  | nil =>
      have next_eq : partition.next before = head := (List.isChain_pair.mp linked).1
      cases steps <;> simp [follow?, next_eq]
  | cons block between ih =>
      rw [List.cons_append, List.cons_append, List.isChain_cons_cons] at linked
      rw [List.mem_cons, not_or] at headNotMem
      have next_eq : partition.next before = block := linked.1.1
      cases steps with
      | zero => simp at enough
      | succ steps =>
          rw [next_eq, follow?, if_neg (Ne.symm headNotMem.1),
            ih linked.2 headNotMem.2 (Nat.le_of_succ_le_succ enough), Option.map_some]

/-- The links are followed around the circle. -/
theorem ids?_eq (circle : Circle partition listed) : partition.ids? = some listed := by
  have length_eq := circle.length_eq
  have nodup := circle.nodup
  have linked := circle.linked
  rw [ids?, circle.head?_eq]
  cases listed with
  | nil => rfl
  | cons head rest =>
      rw [List.nodup_cons] at nodup
      have enough : rest.length ≤ partition.size := by
        rw [← length_eq, List.length_cons]
        exact Nat.le_succ _
      simp only [List.head?_cons, follow?_eq_some linked nodup.1 enough, Option.map_some]

theorem order_eq (circle : Circle partition listed) : partition.order = listed := by
  rw [order, circle.ids?_eq, Option.getD_some]

/-! ## Linking in a block -/

/-- Links that start in a list are kept when those from its members are. -/
theorem isChain_append_singleton_imp {R S : Nat → Nat → Prop} {ids : List Nat} {last : Nat}
    (chain : (ids ++ [last]).IsChain R)
    (imp : ∀ first ∈ ids, ∀ second ∈ ids ++ [last], R first second → S first second) :
    (ids ++ [last]).IsChain S := by
  induction ids with
  | nil => exact List.isChain_singleton last
  | cons head ids ih =>
      rw [List.cons_append, List.isChain_cons] at chain ⊢
      constructor
      · intro second isSecond
        exact imp head List.mem_cons_self second
          (List.mem_cons_of_mem _ (List.mem_of_mem_head? isSecond)) (chain.1 second isSecond)
      · apply ih chain.2
        intro first firstMem second secondMem
        exact imp first (List.mem_cons_of_mem _ firstMem) second
          (List.mem_cons_of_mem _ secondMem)

variable {before after : List Nat} {block : Nat}

theorem head?_append_cons (before after : List Nat) (block : Nat) :
    (before ++ block :: after).head? = some (before.headD block) := by
  cases before <;> rfl

theorem mem_of_mem_append_headD {id : Nat} (idMem : id ∈ after ++ [before.headD block]) :
    id ∈ before ++ block :: after := by
  rcases List.mem_append.mp idMem with inAfter | isHead
  · exact List.mem_append_right _ (List.mem_cons_of_mem _ inAfter)
  · rw [List.mem_singleton.mp isHead]
    exact List.mem_of_mem_head? (head?_append_cons before after block)

theorem lt_size (circle : Circle partition listed) {id : Nat} (idMem : id ∈ listed) :
    id < partition.size :=
  (circle.mem_iff id).mp idMem

/-- Around the circle, the links from a block lead to the next one listed, or to the first. -/
theorem exists_linked (circle : Circle partition (before ++ block :: after)) :
    ∃ second rest, after ++ [before.headD block] = second :: rest ∧
      second < partition.size ∧ partition.Linked block second := by
  have linked := circle.linked
  rw [head?_append_cons, Option.toList_some] at linked
  obtain ⟨second, rest, behind⟩ := List.exists_cons_of_ne_nil
    (List.append_ne_nil_of_right_ne_nil after (List.cons_ne_nil (before.headD block) []))
  refine ⟨second, rest, behind, ?_, ?_⟩
  · apply circle.lt_size
    apply mem_of_mem_append_headD
    rw [behind]
    exact List.mem_cons_self
  · rw [List.append_assoc, List.cons_append, behind, List.isChain_append_cons_cons] at linked
    exact linked.2.1

/-- Links that do not start at a block stay when another is linked in behind it. -/
theorem isChain_insertBehind (circle : Circle partition (before ++ block :: after))
    (members : List Nat) {ids : List Nat} {last : Nat} (notMem : block ∉ ids)
    (listed : ∀ id ∈ ids ++ [last], id ∈ before ++ block :: after)
    (chain : (ids ++ [last]).IsChain partition.Linked) :
    (ids ++ [last]).IsChain
      (partition.insertBetween block (partition.next block) members).Linked := by
  obtain ⟨second, _, _, secondLt, linked⟩ := circle.exists_linked
  have blockLt := circle.lt_size (List.mem_append_right before List.mem_cons_self)
  rw [linked.1]
  apply isChain_append_singleton_imp chain
  intro first firstMem other otherMem old
  apply old.insertBetween linked (circle.lt_size (listed _ (List.mem_append_left _ firstMem)))
    (circle.lt_size (listed _ otherMem)) blockLt secondLt
  rintro rfl
  exact notMem firstMem

/-- The links lead around with a block that is linked in behind another. -/
theorem linked_insertBehind (circle : Circle partition (before ++ block :: after))
    (members : List Nat) :
    (before ++ block :: partition.size :: (after ++ [before.headD block])).IsChain
      (partition.insertBetween block (partition.next block) members).Linked := by
  obtain ⟨second, rest, behind, secondLt, linked⟩ := circle.exists_linked
  have blockLt := circle.lt_size (List.mem_append_right before List.mem_cons_self)
  have distinct := circle.nodup
  rw [List.nodup_middle, List.nodup_cons, List.mem_append, not_or] at distinct
  have chain := circle.linked
  rw [head?_append_cons, Option.toList_some, List.append_assoc, List.cons_append,
    List.isChain_split] at chain
  have upToListed : ∀ id ∈ before ++ [block], id ∈ before ++ block :: after := by
    intro id idMem
    rw [List.append_cons]
    exact List.mem_append_left _ idMem
  have upTo := circle.isChain_insertBehind members distinct.1.1 upToListed chain.1
  have fromNext := circle.isChain_insertBehind members distinct.1.2
    (fun _ => mem_of_mem_append_headD) chain.2.tail
  rw [linked.1] at upTo fromNext ⊢
  rw [behind] at fromNext ⊢
  rw [List.isChain_append_cons_cons, List.isChain_cons_cons]
  exact ⟨upTo, linked_insertBetween_before blockLt secondLt members,
    linked_insertBetween_behind blockLt secondLt members, fromNext⟩

/-- A block that is linked in behind another is listed behind it. -/
theorem insertBehind (circle : Circle partition (before ++ block :: after))
    (members : List Nat) :
    Circle (partition.insertBetween block (partition.next block) members)
      (before ++ block :: partition.size :: after) := by
  have perm : (before ++ block :: partition.size :: after).Perm
      (partition.size :: (before ++ block :: after)) := by
    rw [List.append_cons, List.append_cons before block after]
    exact List.perm_middle
  constructor
  · rw [head?_append_cons]
    exact circle.head?_eq.trans (head?_append_cons before after block)
  · rw [head?_append_cons, Option.toList_some, List.append_assoc]
    exact circle.linked_insertBehind members
  · rw [perm.nodup_iff, List.nodup_cons]
    exact ⟨fun sizeMem => Nat.lt_irrefl _ (circle.lt_size sizeMem), circle.nodup⟩
  · intro id
    rw [perm.mem_iff, List.mem_cons, circle.mem_iff, size_insertBetween]
    omega

/-! ## Pushing and splitting -/

/-- The first block is linked to itself. -/
theorem push_nil (circle : Circle partition []) (members : List Nat) :
    Circle (partition.push members) [partition.size] := by
  have size_eq : partition.size = 0 := circle.length_eq.symm
  have head?_eq : partition.head? = none := circle.head?_eq
  have self : (partition.insertBetween partition.size partition.size members).Linked
      partition.size partition.size := by
    constructor
    · rw [next_insertBetween (Nat.le_refl _), if_pos rfl]
    · rw [previous_insertBetween (Nat.le_refl _), if_pos rfl]
  constructor
  · rw [push, head?_eq]
    rfl
  · rw [push, head?_eq]
    exact List.isChain_pair.mpr self
  · exact List.nodup_singleton _
  · intro block
    rw [List.mem_singleton, size_push, size_eq]
    omega

/-- A pushed block is listed last. -/
theorem push (circle : Circle partition listed) (members : List Nat) :
    Circle (partition.push members) (listed ++ [partition.size]) := by
  cases listed using List.reverseRecOn with
  | nil => exact circle.push_nil members
  | append_singleton before last =>
      obtain ⟨head, _, isHead, _, linked⟩ := circle.exists_linked
      rw [List.nil_append, List.cons.injEq] at isHead
      have head?_eq : partition.head? = some head := by
        rw [circle.head?_eq, head?_append_cons, isHead.1]
      have push_eq : partition.push members =
          partition.insertBetween last (partition.next last) members := by
        simp only [Partition.push, head?_eq, linked.1, linked.2]
      rw [push_eq, List.append_assoc]
      exact circle.insertBehind members

/-- A block that is split off is listed behind the one that it comes from. -/
theorem split (circle : Circle partition (before ++ block :: after)) (stay moved : List Nat) :
    Circle (partition.split block stay moved) (before ++ block :: partition.size :: after) := by
  have changed : Circle (partition.setMembers block stay) (before ++ block :: after) :=
    circle.congr rfl (size_setMembers ..) (next_setMembers block stay)
      (previous_setMembers block stay)
  have inserted := changed.insertBehind moved
  rwa [size_setMembers, next_setMembers] at inserted

end Circle

end ByteSignature.Partition
