import ByteSignature.Dfa.Minimal
import ByteSignature.Proofs.Dfa.Building
import ByteSignature.Proofs.Dfa.Walk

/-!
# What refinement ends with

Every split keeps states that are alike together and states that differ in acceptance
apart.  The search for a split finds one unless the members of each block agree on every
byte, and it is run often enough to get there.  Then the blocks are exactly the classes
of reachable states that are alike.
-/

namespace ByteSignature.Dfa

variable {dfa : Dfa} {partition : Partition}

/-- The members of the block have edges for the same bytes, into the same blocks. -/
def Agrees (dfa : Dfa) (partition : Partition) (block : Nat) : Prop :=
  ∀ symbol, ∀ id ∈ partition.members block, ∀ id2 ∈ partition.members block,
    dfa.targetBlock? partition symbol id = dfa.targetBlock? partition symbol id2

/-- No block can be split. -/
def Stable (dfa : Dfa) (partition : Partition) : Prop :=
  ∀ block < partition.size, Agrees dfa partition block

/-- The block is divided by the block that its members' edges for a byte lead into. -/
structure Divides (dfa : Dfa) (partition : Partition) (block : Nat) (stay moved : List Nat) :
    Prop where
  stay_ne_nil : stay ≠ []
  moved_ne_nil : moved ≠ []
  exists_symbol : ∃ symbol reference,
    (∀ id, id ∈ stay ↔ id ∈ partition.members block ∧
      dfa.targetBlock? partition symbol id = reference) ∧
    ∀ id, id ∈ moved ↔ id ∈ partition.members block ∧
      dfa.targetBlock? partition symbol id ≠ reference

/-! ## One split -/

theorem mem_symbolsOf_of_target? {members : List Nat} {id target : Nat} {symbol : UInt8}
    (idMem : id ∈ members) (edge : dfa.target? id symbol = some target) :
    symbol ∈ dfa.symbolsOf members := by
  rw [symbolsOf, OrderedSet.mem_toList_ofList]
  rw [Dfa.target?, State.target?_eq_some_iff] at edge
  exact List.mem_map.mpr ⟨(symbol, target), List.mem_flatMap.mpr ⟨id, idMem, edge⟩, rfl⟩

/-- A byte that no member has an edge for leads all of them nowhere. -/
theorem targetBlock?_of_notMem_symbolsOf {members : List Nat} {id : Nat} {symbol : UInt8}
    (idMem : id ∈ members) (unused : symbol ∉ dfa.symbolsOf members) :
    dfa.targetBlock? partition symbol id = none := by
  cases edge : dfa.target? id symbol with
  | none => rw [targetBlock?, edge, Option.bind_none]
  | some target => exact absurd (mem_symbolsOf_of_target? idMem edge) unused

theorem agrees_of_findSplit?_eq_none {block : Nat}
    (unsplit : dfa.findSplit? partition block = none) : Agrees dfa partition block := by
  intro symbol
  by_cases used : symbol ∈ dfa.symbolsOf (partition.members block)
  · have whole := List.findSome?_eq_none_iff.mp unsplit symbol used
    simp only [divide, List.partition_eq_filter_filter, ite_eq_left_iff, reduceCtorEq, imp_false,
      Classical.not_not, List.isEmpty_iff, List.filter_eq_nil_iff, Function.comp_apply,
      Bool.not_eq_true, Bool.not_eq_false', beq_iff_eq] at whole
    intro id idMem id2 id2Mem
    exact (whole id idMem).trans (whole id2 id2Mem).symm
  · intro id idMem id2 id2Mem
    rw [targetBlock?_of_notMem_symbolsOf idMem used, targetBlock?_of_notMem_symbolsOf id2Mem used]

theorem divides_of_findSplit?_eq_some {block : Nat} {parts : List Nat × List Nat}
    (nonempty : partition.members block ≠ [])
    (found : dfa.findSplit? partition block = some parts) :
    Divides dfa partition block parts.1 parts.2 := by
  obtain ⟨symbol, _, divided⟩ := List.exists_of_findSome?_eq_some found
  dsimp only at divided
  split at divided
  · cases divided
  · rename_i movedNonempty
    cases divided
    obtain ⟨first, rest, members⟩ := List.exists_cons_of_ne_nil nonempty
    have reference : (partition.members block).head?.bind (dfa.targetBlock? partition symbol) =
        dfa.targetBlock? partition symbol first := by
      rw [members]
      rfl
    have mem_stay (id : Nat) : id ∈ (dfa.divide partition (partition.members block) symbol).1 ↔
        id ∈ partition.members block ∧ dfa.targetBlock? partition symbol id =
          dfa.targetBlock? partition symbol first := by
      simp only [divide, reference, List.partition_eq_filter_filter, List.mem_filter, beq_iff_eq]
    have mem_moved (id : Nat) : id ∈ (dfa.divide partition (partition.members block) symbol).2 ↔
        id ∈ partition.members block ∧ dfa.targetBlock? partition symbol id ≠
          dfa.targetBlock? partition symbol first := by
      simp [divide, reference, List.partition_eq_filter_filter, List.mem_filter]
    constructor
    · apply List.ne_nil_of_mem
      exact (mem_stay first).mpr ⟨members ▸ List.mem_cons_self, rfl⟩
    · simpa using movedNonempty
    · exact ⟨symbol, _, mem_stay, mem_moved⟩

theorem Divides.halves {block : Nat} {stay moved : List Nat} (blockLt : block < partition.size)
    (divides : Divides dfa partition block stay moved) : partition.Halves block stay moved := by
  obtain ⟨symbol, reference, mem_stay, mem_moved⟩ := divides.exists_symbol
  constructor
  · exact blockLt
  · exact divides.stay_ne_nil
  · exact divides.moved_ne_nil
  · intro id idMoved idStays
    exact ((mem_moved id).mp idMoved).2 ((mem_stay id).mp idStays).2
  · intro id
    rw [mem_stay, mem_moved, ← and_or_left]
    exact (and_iff_left (Classical.em _)).symm

/-- A split that is found divides a block. -/
theorem exists_divides_of_refineOnce? {all : List Nat} {next : Partition}
    (parts : partition.Parts all) (found : dfa.refineOnce? partition = some next) :
    ∃ block < partition.size, ∃ stay moved, Divides dfa partition block stay moved ∧
      next = partition.split block stay moved := by
  obtain ⟨block, blockMem, searched⟩ := List.exists_of_findSome?_eq_some found
  rcases Option.map_eq_some_iff.mp searched with ⟨halves, split, rfl⟩
  have blockLt := (parts.mem_order_iff block).mp blockMem
  exact ⟨block, blockLt, halves.1, halves.2,
    divides_of_findSplit?_eq_some (parts.nonempty block blockLt) split, rfl⟩

/-! ## Refining -/

/-- The reachable states are partitioned, with states that are alike kept together and
states that differ in acceptance kept apart. -/
structure Refining (dfa : Dfa) (partition : Partition) : Prop where
  parts : partition.Parts dfa.order
  coarse : ∀ id ∈ dfa.order, ∀ id2 ∈ dfa.order, Alike dfa dfa id id2 →
    partition.blockOf? id = partition.blockOf? id2
  accepting : ∀ block < partition.size, ∀ id ∈ partition.members block,
    ∀ id2 ∈ partition.members block, dfa.isAccepting id = dfa.isAccepting id2

namespace Refining

/-- Edges of reachable states that are alike lead into the same blocks. -/
theorem targetBlock?_eq_of_alike (refining : Refining dfa partition) (inRange : dfa.InRange)
    {id id2 : Nat} (idMem : id ∈ dfa.order) (id2Mem : id2 ∈ dfa.order)
    (alike : Alike dfa dfa id id2) (symbol : UInt8) :
    dfa.targetBlock? partition symbol id = dfa.targetBlock? partition symbol id2 := by
  rw [targetBlock?, targetBlock?]
  cases edge : dfa.target? id symbol with
  | none =>
      have missing := alike.isSome_target?_eq symbol
      rw [edge, Option.isSome_none, eq_comm, Option.isSome_eq_false_iff,
        Option.isNone_iff_eq_none] at missing
      rw [missing, Option.bind_none]
  | some target =>
      obtain ⟨target2, edge2, targetsAlike⟩ := alike.exists_target? edge
      rw [edge2, Option.bind_some, Option.bind_some]
      exact refining.coarse target (inRange.target_mem_order idMem edge) target2
        (inRange.target_mem_order id2Mem edge2) targetsAlike

/-- Splitting a block that disagrees goes on refining. -/
theorem split (refining : Refining dfa partition) (inRange : dfa.InRange) {block : Nat}
    {stay moved : List Nat} (blockLt : block < partition.size)
    (divides : Divides dfa partition block stay moved) :
    Refining dfa (partition.split block stay moved) := by
  obtain ⟨symbol, reference, mem_stay, mem_moved⟩ := divides.exists_symbol
  have members_cases := (divides.halves blockLt).mem_iff
  exact {
    parts := refining.parts.split_halves (divides.halves blockLt)
    coarse := by
      intro id idMem id2 id2Mem alike
      have together := refining.coarse id idMem id2 id2Mem alike
      have sameTarget := refining.targetBlock?_eq_of_alike inRange idMem id2Mem alike symbol
      have inBlock_iff : id ∈ partition.members block ↔ id2 ∈ partition.members block := by
        have known (other : Nat) : other ∈ partition.members block ↔
            partition.blockOf? other = some block := by
          rw [refining.parts.blockOf?_iff, and_iff_right blockLt]
        rw [known, known, together]
      have moved_iff : id ∈ moved ↔ id2 ∈ moved := by
        rw [mem_moved, mem_moved, inBlock_iff, sameTarget]
      have inside : ∀ other ∈ moved, other < partition.index.size := by
        intro other otherMoved
        exact Partition.lt_of_blockOf?_eq_some ((refining.parts.blockOf?_iff other block).mpr
          ⟨blockLt, ((mem_moved other).mp otherMoved).1⟩)
      rw [Partition.blockOf?_split inside, Partition.blockOf?_split inside, together]
      simp only [moved_iff]
    accepting := by
      intro other otherLt id idMem id2 id2Mem
      rw [Partition.size_split] at otherLt
      rw [Partition.members_split blockLt] at idMem id2Mem
      by_cases isNew : other = partition.size
      · rw [if_pos isNew] at idMem id2Mem
        exact refining.accepting block blockLt id ((members_cases id).mpr (Or.inr idMem)) id2
          ((members_cases id2).mpr (Or.inr id2Mem))
      · rw [if_neg isNew] at idMem id2Mem
        by_cases isBlock : other = block
        · rw [if_pos isBlock] at idMem id2Mem
          exact refining.accepting block blockLt id ((members_cases id).mpr (Or.inl idMem)) id2
            ((members_cases id2).mpr (Or.inl id2Mem))
        · rw [if_neg isBlock] at idMem id2Mem
          exact refining.accepting other (by omega) id idMem id2 id2Mem }

/-- The search for a split ends with a stable partition or goes on refining. -/
theorem refineOnce?_cases (refining : Refining dfa partition) (inRange : dfa.InRange) :
    (dfa.refineOnce? partition = none ∧ Stable dfa partition) ∨
      ∃ next, dfa.refineOnce? partition = some next ∧ Refining dfa next ∧
        next.size = partition.size + 1 := by
  cases searched : dfa.refineOnce? partition with
  | none =>
      left
      refine ⟨rfl, ?_⟩
      intro block blockLt
      have blockMem := (refining.parts.mem_order_iff block).mpr blockLt
      have unsplit := List.findSome?_eq_none_iff.mp searched block blockMem
      exact agrees_of_findSplit?_eq_none (Option.map_eq_none_iff.mp unsplit)
  | some next =>
      right
      obtain ⟨block, blockLt, stay, moved, divides, rfl⟩ :=
        exists_divides_of_refineOnce? refining.parts searched
      exact ⟨_, rfl, refining.split inRange blockLt divides, Partition.size_split ..⟩

/-- Enough rounds of refining end with a stable partition. -/
theorem refine (refining : Refining dfa partition) (inRange : dfa.InRange) {splits : Nat}
    (enough : dfa.order.length < partition.size + splits) :
    Refining dfa (dfa.refine splits partition) ∧ Stable dfa (dfa.refine splits partition) := by
  induction splits generalizing partition with
  | zero => exact absurd refining.parts.size_le (Nat.not_le.mpr enough)
  | succ splits ih =>
      rw [Dfa.refine]
      rcases refining.refineOnce?_cases inRange with ⟨none, stable⟩ | ⟨next, found, further, size⟩
      · simp only [none]
        exact ⟨refining, stable⟩
      · simp only [found]
        apply ih further
        omega

end Refining

/-! ## The first partition -/

/-- Add some members as a block if there are any. -/
def pushSome (partition : Partition) (members : List Nat) : Partition :=
  if members.isEmpty then partition else partition.push members

theorem size_index_pushSome (members : List Nat) :
    (pushSome partition members).index.size = partition.index.size := by
  rw [pushSome]
  split
  · rfl
  · exact Partition.size_index_push members

theorem blockOf?_pushSome {members : List Nat}
    (inside : ∀ id ∈ members, id < partition.index.size) (id : Nat) :
    (pushSome partition members).blockOf? id =
      if id ∈ members then some partition.size else partition.blockOf? id := by
  rw [pushSome]
  split
  · rename_i none
    simp [List.isEmpty_iff.mp none]
  · exact Partition.blockOf?_push inside id

theorem parts_pushSome {all members : List Nat} (parts : partition.Parts all)
    (inside : ∀ id ∈ members, id < partition.index.size) (fresh : ∀ id ∈ members, id ∉ all) :
    (pushSome partition members).Parts (all ++ members) := by
  rw [pushSome]
  split
  · rename_i none
    rwa [List.isEmpty_iff.mp none, List.append_nil]
  · rename_i some
    apply parts.push _ inside fresh
    simpa using some

theorem built_pushSome {stateCount : Nat} {members : List Nat}
    (built : Partition.Built stateCount partition) (inside : ∀ id ∈ members, id < stateCount)
    (notHeld : ∀ id ∈ members, ¬ partition.Holds id) :
    Partition.Built stateCount (pushSome partition members) := by
  rw [pushSome]
  split
  · exact built
  · rename_i some
    apply built.push
    constructor
    · simpa using some
    · exact inside
    · intro id idMem block blockLt blockMem
      exact notHeld id idMem ⟨block, blockLt, blockMem⟩

/-- The reachable states that accept, as a block if there are any. -/
def acceptingPartition (dfa : Dfa) : Partition :=
  pushSome (.empty dfa.size) (dfa.order.filter dfa.isAccepting)

theorem initialPartition_eq (dfa : Dfa) : dfa.initialPartition =
    pushSome dfa.acceptingPartition (dfa.order.filter fun id => !dfa.isAccepting id) := by
  rw [initialPartition, List.partition_eq_filter_filter]
  rfl

theorem InRange.lt_size_index (inRange : dfa.InRange) (select : Nat → Bool) :
    ∀ id ∈ dfa.order.filter select, id < (Partition.empty dfa.size).index.size := by
  intro id idMem
  rw [Partition.empty, Array.size_replicate]
  exact inRange.lt_of_mem_order (List.mem_filter.mp idMem).1

theorem InRange.lt_size_index_acceptingPartition (inRange : dfa.InRange) (select : Nat → Bool) :
    ∀ id ∈ dfa.order.filter select, id < dfa.acceptingPartition.index.size := by
  rw [acceptingPartition, size_index_pushSome]
  exact inRange.lt_size_index select

theorem parts_acceptingPartition (inRange : dfa.InRange) :
    dfa.acceptingPartition.Parts ([] ++ dfa.order.filter dfa.isAccepting) :=
  parts_pushSome (Partition.parts_empty dfa.size) (inRange.lt_size_index _) fun _ _ =>
    List.not_mem_nil

/-- States that do not accept are not among those that do. -/
theorem notMem_accepting :
    ∀ id ∈ dfa.order.filter fun id => !dfa.isAccepting id,
      id ∉ [] ++ dfa.order.filter dfa.isAccepting := by
  intro id idMem
  rw [List.nil_append, List.mem_filter, not_and]
  intro _
  simpa using (List.mem_filter.mp idMem).2

theorem parts_initialPartition (inRange : dfa.InRange) :
    dfa.initialPartition.Parts dfa.order := by
  rw [initialPartition_eq]
  apply (parts_pushSome (parts_acceptingPartition inRange)
    (inRange.lt_size_index_acceptingPartition _) notMem_accepting).congr
  intro id
  simp only [List.nil_append, List.mem_append, List.mem_filter, ← and_or_left]
  cases dfa.isAccepting id <;> simp

/-- The first partition is built by pushing. -/
theorem built_initialPartition (inRange : dfa.InRange) :
    Partition.Built dfa.size dfa.initialPartition := by
  have inside (select : Nat → Bool) : ∀ id ∈ dfa.order.filter select, id < dfa.size :=
    fun id idMem => inRange.lt_of_mem_order (List.mem_filter.mp idMem).1
  rw [initialPartition_eq]
  apply built_pushSome _ (inside _)
  · intro id idMem held
    exact notMem_accepting id idMem
      ((parts_acceptingPartition inRange).mem_iff_holds.mpr held)
  · apply built_pushSome .empty (inside _)
    rintro id - ⟨block, blockLt, -⟩
    exact absurd blockLt (Nat.not_lt_zero block)

theorem refining_initialPartition (inRange : dfa.InRange) : Refining dfa dfa.initialPartition := by
  have parts := parts_initialPartition inRange
  have blockOf?_eq (id : Nat) (idMem : id ∈ dfa.order) : dfa.initialPartition.blockOf? id =
      if dfa.isAccepting id then some 0 else some dfa.acceptingPartition.size := by
    rw [initialPartition_eq, blockOf?_pushSome (inRange.lt_size_index_acceptingPartition _),
      acceptingPartition, blockOf?_pushSome (inRange.lt_size_index _)]
    by_cases accepting : dfa.isAccepting id = true
    · simp [idMem, accepting]
    · simp [idMem, accepting]
  -- The other states get another block when there are accepting ones.
  have size_ne (id : Nat) (idMem : id ∈ dfa.order) (accepting : dfa.isAccepting id = true) :
      dfa.acceptingPartition.size ≠ 0 := by
    have some : ¬ (dfa.order.filter dfa.isAccepting).isEmpty = true := by
      rw [List.isEmpty_iff]
      exact List.ne_nil_of_mem (List.mem_filter.mpr ⟨idMem, accepting⟩)
    rw [acceptingPartition, pushSome, if_neg some, Partition.size_push]
    exact Nat.succ_ne_zero _
  exact {
    parts := parts
    coarse := by
      intro id idMem id2 id2Mem alike
      rw [blockOf?_eq id idMem, blockOf?_eq id2 id2Mem, alike.isAccepting_eq]
    accepting := by
      intro block blockLt id idMem id2 id2Mem
      have orderMem := parts.mem_all_of_mem blockLt idMem
      have orderMem2 := parts.mem_all_of_mem blockLt id2Mem
      have inBlock := (parts.blockOf?_iff id block).mpr ⟨blockLt, idMem⟩
      have inBlock2 := (parts.blockOf?_iff id2 block).mpr ⟨blockLt, id2Mem⟩
      rw [← inBlock2, blockOf?_eq id orderMem, blockOf?_eq id2 orderMem2] at inBlock
      cases accepting : dfa.isAccepting id <;> cases accepting2 : dfa.isAccepting id2
      · rfl
      · simp [accepting, accepting2, size_ne id2 orderMem2 accepting2] at inBlock
      · simp [accepting, accepting2, (size_ne id orderMem accepting).symm] at inBlock
      · rfl }

/-- The start is in some block, so there is at least one. -/
theorem size_initialPartition_pos (inRange : dfa.InRange) : 0 < dfa.initialPartition.size := by
  have parts := parts_initialPartition inRange
  obtain ⟨block, placed⟩ := (parts.mem_all_iff dfa.start).mp inRange.start_mem_order
  exact Nat.zero_lt_of_lt ((parts.blockOf?_iff _ _).mp placed).1

/-- The partition that minimization ends with. -/
def finalPartition (dfa : Dfa) : Partition :=
  dfa.refine dfa.order.length dfa.initialPartition

/-- Minimization refines until nothing disagrees. -/
theorem refining_finalPartition (inRange : dfa.InRange) :
    Refining dfa dfa.finalPartition ∧ Stable dfa dfa.finalPartition := by
  apply (refining_initialPartition inRange).refine inRange
  have pos := size_initialPartition_pos inRange
  omega

/-! ## Classes -/

/-- Two states are in one block. -/
def Together (partition : Partition) (id id2 : Nat) : Prop :=
  ∃ block, partition.blockOf? id = some block ∧ partition.blockOf? id2 = some block

theorem Together.exists_mem {all : List Nat} {id id2 : Nat} (together : Together partition id id2)
    (parts : partition.Parts all) : ∃ block < partition.size,
      id ∈ partition.members block ∧ id2 ∈ partition.members block := by
  obtain ⟨block, placed, placed2⟩ := together
  rcases (parts.blockOf?_iff id block).mp placed with ⟨blockLt, idMem⟩
  exact ⟨block, blockLt, idMem, ((parts.blockOf?_iff id2 block).mp placed2).2⟩

namespace Refining

theorem isAccepting_eq (refining : Refining dfa partition) {id id2 : Nat}
    (together : Together partition id id2) : dfa.isAccepting id = dfa.isAccepting id2 := by
  obtain ⟨block, blockLt, idMem, id2Mem⟩ := together.exists_mem refining.parts
  exact refining.accepting block blockLt id idMem id2 id2Mem

/-- In a stable partition, states of one block have edges for the same bytes, and their edges
for a byte lead into one block. -/
theorem rel_target? (refining : Refining dfa partition) (stable : Stable dfa partition)
    (inRange : dfa.InRange) {id id2 : Nat} (together : Together partition id id2)
    (symbol : UInt8) :
    Option.Rel (Together partition) (dfa.target? id symbol) (dfa.target? id2 symbol) := by
  obtain ⟨block, blockLt, idMem, id2Mem⟩ := together.exists_mem refining.parts
  have agree := stable block blockLt symbol id idMem id2 id2Mem
  have placedTarget {id target : Nat} (idMem : id ∈ partition.members block)
      (edge : dfa.target? id symbol = some target) :
      ∃ next, partition.blockOf? target = some next :=
    (refining.parts.mem_all_iff target).mp
      (inRange.target_mem_order (refining.parts.mem_all_of_mem blockLt idMem) edge)
  rw [targetBlock?, targetBlock?] at agree
  cases edge : dfa.target? id symbol with
  | none =>
      cases edge2 : dfa.target? id2 symbol with
      | none => exact .none
      | some target2 =>
          obtain ⟨next, nextPlaced⟩ := placedTarget id2Mem edge2
          simp [edge, edge2, nextPlaced] at agree
  | some target =>
      obtain ⟨next, nextPlaced⟩ := placedTarget idMem edge
      cases edge2 : dfa.target? id2 symbol with
      | none => simp [edge, edge2, nextPlaced] at agree
      | some target2 =>
          rw [edge, edge2, Option.bind_some, Option.bind_some, nextPlaced] at agree
          exact .some ⟨next, nextPlaced, agree.symm⟩

/-- In a stable partition, states of one block are alike. -/
theorem alike_of_together (refining : Refining dfa partition) (stable : Stable dfa partition)
    (inRange : dfa.InRange) {id id2 : Nat} (together : Together partition id id2) :
    Alike dfa dfa id id2 :=
  alike_of_bisimulation refining.isAccepting_eq (refining.rel_target? stable inRange) together

/-- Reachable states that are alike are in one block. -/
theorem together_of_alike (refining : Refining dfa partition) {id id2 : Nat}
    (idMem : id ∈ dfa.order) (id2Mem : id2 ∈ dfa.order) (alike : Alike dfa dfa id id2) :
    Together partition id id2 := by
  obtain ⟨block, placed⟩ := (refining.parts.mem_all_iff id).mp idMem
  exact ⟨block, placed, refining.coarse id idMem id2 id2Mem alike ▸ placed⟩

end Refining

end ByteSignature.Dfa
