import ByteSignature.Proofs.Dfa.AccessWord

/-!
# How refinement goes on and ends

Minimization comes by one partition after another.  Each is built by pushing and splitting,
keeps states together that walks do not tell apart, and has one more block than the one before
it.  Since blocks share no states, there are fewer splits than reachable states, and the search
that finds no split leaves the classes of states that no walk tells apart.
-/

namespace ByteSignature.Dfa

variable {dfa : Dfa} {splits : Nat} {partition : Partition}

/-- Minimization comes by the partition after some number of splits. -/
inductive AfterSplits (dfa : Dfa) : (splits : Nat) → Partition → Prop where
  | start : AfterSplits dfa 0 dfa.initialPartition
  | split {splits : Nat} {partition next : Partition} (after : AfterSplits dfa splits partition)
      (found : dfa.refineOnce? partition = some next) : AfterSplits dfa (splits + 1) next

/-! ## One search -/

/-- A block that is divided has members that disagree. -/
theorem Divides.not_agrees {block : Nat} {stay moved : List Nat}
    (divides : Divides dfa partition block stay moved) : ¬ Agrees dfa partition block := by
  intro agrees
  obtain ⟨symbol, reference, mem_stay, mem_moved⟩ := divides.exists_symbol
  obtain ⟨id, idStays⟩ := List.exists_mem_of_ne_nil _ divides.stay_ne_nil
  obtain ⟨id2, id2Moved⟩ := List.exists_mem_of_ne_nil _ divides.moved_ne_nil
  rcases (mem_stay id).mp idStays with ⟨idMem, leads⟩
  rcases (mem_moved id2).mp id2Moved with ⟨id2Mem, leadsElsewhere⟩
  exact leadsElsewhere ((agrees symbol id2 id2Mem id idMem).trans leads)

/-- The search finds nothing exactly when the members of every block agree. -/
theorem Refining.refineOnce?_eq_none_iff (refining : Refining dfa partition)
    (inRange : dfa.InRange) : dfa.refineOnce? partition = none ↔ Stable dfa partition := by
  constructor
  · intro searched
    rcases refining.refineOnce?_cases inRange with ⟨_, stable⟩ | ⟨next, found, _⟩
    · exact stable
    · rw [searched] at found
      cases found
  · intro stable
    rw [Option.eq_none_iff_forall_ne_some]
    intro next found
    obtain ⟨block, blockLt, stay, moved, divides, _⟩ :=
      exists_divides_of_refineOnce? refining.parts found
    exact divides.not_agrees (stable block blockLt)

/-! ## Every search -/

namespace AfterSplits

theorem refining (after : AfterSplits dfa splits partition) (inRange : dfa.InRange) :
    Refining dfa partition := by
  induction after with
  | start => exact refining_initialPartition inRange
  | split _ found ih =>
      rcases ih.refineOnce?_cases inRange with ⟨none, _⟩ | ⟨next, isNext, further, _⟩
      · rw [none] at found
        cases found
      · rw [isNext, Option.some.injEq] at found
        exact found ▸ further

/-- Every partition that minimization comes by is built by pushing and splitting. -/
theorem built (after : AfterSplits dfa splits partition) (inRange : dfa.InRange) :
    Partition.Built dfa.size partition := by
  induction after with
  | start => exact built_initialPartition inRange
  | split before found ih =>
      obtain ⟨block, blockLt, stay, moved, divides, rfl⟩ :=
        exists_divides_of_refineOnce? (before.refining inRange).parts found
      exact ih.split (divides.halves blockLt)

/-- Every split makes one more block. -/
theorem size_eq (after : AfterSplits dfa splits partition) (inRange : dfa.InRange) :
    partition.size = dfa.initialPartition.size + splits := by
  induction after with
  | start => rfl
  | split before found ih =>
      obtain ⟨block, _, stay, moved, _, rfl⟩ :=
        exists_divides_of_refineOnce? (before.refining inRange).parts found
      rw [Partition.size_split, ih, Nat.add_assoc]

/-- There are fewer splits than reachable states. -/
theorem lt_length_order (after : AfterSplits dfa splits partition) (inRange : dfa.InRange) :
    splits < dfa.order.length := by
  have size_le := (after.refining inRange).parts.size_le
  have pos := size_initialPartition_pos inRange
  rw [after.size_eq inRange] at size_le
  omega

/-- Refining goes on from split to split. -/
theorem exists_refine (after : AfterSplits dfa splits partition) (rounds : Nat) :
    ∃ more, AfterSplits dfa more (dfa.refine rounds partition) := by
  induction rounds generalizing splits partition with
  | zero => exact ⟨splits, after⟩
  | succ rounds ih =>
      rw [Dfa.refine]
      split
      · exact ⟨splits, after⟩
      · rename_i next found
        exact ih (after.split found)

end AfterSplits

/-- The partition that minimization ends with comes after some splits. -/
theorem exists_afterSplits_finalPartition (dfa : Dfa) :
    ∃ splits, AfterSplits dfa splits dfa.finalPartition :=
  AfterSplits.start.exists_refine dfa.order.length

/-- Before every search, fewer splits than reachable states were made, and reachable states
that no walk tells apart are in one block.  When a search finds nothing, states of one block
agree on whether inputs may end there and on where their edges lead, so that the blocks are the
classes of states that no walk tells apart; there is such a search, and minimization makes the
blocks that it leaves its states. -/
theorem refinement_settles (inRange : dfa.InRange) :
    (∃ splits partition, AfterSplits dfa splits partition ∧
      dfa.refineOnce? partition = none ∧ dfa.minimize = dfa.merge partition) ∧
    ∀ splits partition, AfterSplits dfa splits partition →
      splits < dfa.walkedStates.ncard ∧
      (∀ id ∈ dfa.walkedStates, ∀ id2 ∈ dfa.walkedStates,
        (∀ input, SameEnd dfa dfa (dfa.walkFrom id input) (dfa.walkFrom id2 input)) →
          Together partition id id2) ∧
      (dfa.refineOnce? partition = none →
        (∀ block < partition.size, ∀ id ∈ partition.members block,
          ∀ id2 ∈ partition.members block, dfa.isAccepting id = dfa.isAccepting id2 ∧
            ∀ symbol, Option.Rel (Together partition) (dfa.target? id symbol)
              (dfa.target? id2 symbol)) ∧
        ∀ id id2, Together partition id id2 →
          ∀ input, SameEnd dfa dfa (dfa.walkFrom id input) (dfa.walkFrom id2 input)) := by
  constructor
  · obtain ⟨splits, after⟩ := exists_afterSplits_finalPartition dfa
    obtain ⟨refining, stable⟩ := refining_finalPartition inRange
    refine ⟨splits, dfa.finalPartition, after,
      (refining.refineOnce?_eq_none_iff inRange).mpr stable, ?_⟩
    rw [minimize, if_neg (Nat.ne_of_gt (Nat.zero_lt_of_lt inRange.start_lt))]
    rfl
  · intro splits partition after
    have refining := after.refining inRange
    refine ⟨?_, ?_, ?_⟩
    · exact Nat.lt_of_lt_of_eq (after.lt_length_order inRange) inRange.ncard_reached.symm
    · intro id idMem id2 id2Mem sameEnd
      exact refining.together_of_alike ((mem_walkedStates_iff inRange).mp idMem)
        ((mem_walkedStates_iff inRange).mp id2Mem) (alike_iff_sameEnd.mpr sameEnd)
    · intro searched
      have stable := (refining.refineOnce?_eq_none_iff inRange).mp searched
      constructor
      · intro block blockLt id idMem id2 id2Mem
        have together : Together partition id id2 :=
          ⟨block, (refining.parts.blockOf?_iff id block).mpr ⟨blockLt, idMem⟩,
            (refining.parts.blockOf?_iff id2 block).mpr ⟨blockLt, id2Mem⟩⟩
        exact ⟨refining.isAccepting_eq together, refining.rel_target? stable inRange together⟩
      · intro id id2 together
        exact alike_iff_sameEnd.mp (refining.alike_of_together stable inRange together)

/-- Of two states that accept and differ in nothing, both end in one block, and the start in
another. -/
theorem refinement_settles_doubledTurn : doubledTurn.InRange ∧
    ∃ splits partition, AfterSplits doubledTurn splits partition ∧
      doubledTurn.refineOnce? partition = none ∧ splits < doubledTurn.walkedStates.ncard ∧
      Together partition 2 3 ∧ ¬ Together partition 1 2 := by
  have inRange : doubledTurn.InRange := by decide
  obtain ⟨⟨splits, partition, after, searched, _⟩, settles⟩ := refinement_settles inRange
  obtain ⟨fewer, coarse, settled⟩ := settles splits partition after
  have sameEnd (input : List UInt8) : SameEnd doubledTurn doubledTurn
      (doubledTurn.walkFrom 2 input) (doubledTurn.walkFrom 3 input) := by
    rw [sameEnd_iff_map_eq]
    cases input with
    | nil => decide
    | cons symbol rest =>
        have sameTarget : doubledTurn.target? 2 symbol = doubledTurn.target? 3 symbol := rfl
        rw [walkFrom_cons, walkFrom_cons, sameTarget]
  refine ⟨inRange, splits, partition, after, searched, fewer,
    coarse 2 ⟨[97], by decide⟩ 3 ⟨[98], by decide⟩ sameEnd, ?_⟩
  intro together
  have here := sameEnd_iff_map_eq.mp ((settled searched).2 1 2 together [])
  exact absurd here (by decide)

end ByteSignature.Dfa
