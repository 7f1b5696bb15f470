import ByteSignature.Proofs.Dfa.Behaviour
import ByteSignature.Proofs.Table.Extent
import ByteSignature.Proofs.Table.Emission

/-!
# What an emitted table has in common with its automaton

A table has no states of its own, only the numbers on its entries.  Those of an emitted table
are the places of the reachable states, and no place is missing, since every state but the
start is the target of some entry.  So the table counts the reachable states and walks where
the automaton walks.  It fails to exist for two reasons only: the id is zero, or some place
does not fit into two bytes.
-/

namespace ByteSignature

namespace Dfa

variable {dfa : Dfa} {patternId : UInt8} {table : Table}

/-! ## States and entries -/

/-- The entries of an automaton span the places.  Every place but the first is entered. -/
theorem spans_tableEntries (inRange : dfa.InRange) (fits : dfa.order.length ≤ tableStateSpace)
    (patternId : UInt8) : Table.Spans (dfa.tableEntries patternId) dfa.order.length where
  lt entry entryMem := by
    obtain ⟨place, id, symbol, target, atPlace, edge, rfl⟩ := mem_tableEntries_iff.mp entryMem
    obtain ⟨next, atNext⟩ := List.mem_iff_getElem?.mp
      (inRange.target_mem_order (List.mem_of_getElem? atPlace) edge)
    have placeLt := (List.getElem?_eq_some_iff.mp atPlace).1
    have nextLt := (List.getElem?_eq_some_iff.mp atNext).1
    rw [getD_places atNext, toNat_toUInt16 (Nat.lt_of_lt_of_le placeLt fits),
      toNat_toUInt16 (Nat.lt_of_lt_of_le nextLt fits)]
    exact ⟨placeLt, nextLt⟩
  entered place pos placeLt := by
    have atPlace : dfa.order[place]? = some dfa.order[place] := List.getElem?_eq_getElem placeLt
    obtain ⟨before, beforeMem, symbol, edge⟩ := exists_target?_of_getElem?_order atPlace pos
    obtain ⟨source, atSource⟩ := List.mem_iff_getElem?.mp beforeMem
    refine ⟨_, mem_tableEntries_iff.mpr ⟨source, before, symbol, _, atSource, edge, rfl⟩, ?_⟩
    rw [getD_places atPlace, toNat_toUInt16 (Nat.lt_of_lt_of_le placeLt fits)]

/-- An emitted table has as many states as can be reached. -/
theorem stateCount_eq (inRange : dfa.InRange) (fits : dfa.order.length ≤ tableStateSpace)
    (made : Table.ofEntries (dfa.tableEntries patternId) = .ok table) :
    table.stateCount = dfa.order.length := by
  have spans := (spans_tableEntries inRange fits patternId).of_ofEntries made
  exact spans.stateCount_eq (List.length_pos_of_mem inRange.start_mem_order)

/-! ## Simulation -/

/-- The transition tells the state: its number is the place of the state in the canonical
order, and its flag is the id when inputs may end there, and zero otherwise. -/
def Tells (dfa : Dfa) (patternId : UInt8) (transition : Table.Transition) (id : Nat) : Prop :=
  dfa.order[transition.next.toNat]? = some id ∧
    transition.accept = if dfa.isAccepting id then patternId else 0

theorem Enters.tells (fits : dfa.order.length ≤ tableStateSpace) {transition : Table.Transition}
    {id : Nat} (enters : Enters dfa patternId transition id) :
    Tells dfa patternId transition id := by
  obtain ⟨⟨place, atPlace, next_eq⟩, accept_eq⟩ := enters
  have placeLt := (List.getElem?_eq_some_iff.mp atPlace).1
  refine ⟨?_, accept_eq⟩
  rw [next_eq, toNat_toUInt16 (Nat.lt_of_lt_of_le placeLt fits), atPlace]

/-- For every input but the empty one the table walks exactly when the automaton does and tells
the state reached, and it counts the states that are reached, or one when there are none. -/
structure SimulatedBy (dfa : Dfa) (patternId : UInt8) (table : Table) : Prop where
  walks : ∀ input, input ≠ [] →
    Option.Rel (Tells dfa patternId) (table.walk input) (dfa.walk input)
  counts : table.stateCount = max 1 dfa.walkedStates.ncard

/-- An automaton without states reaches none. -/
theorem ncard_walkedStates (built : dfa.size = 0 ∨ dfa.InRange) :
    dfa.walkedStates.ncard = dfa.order.length := by
  rcases built with noStates | inRange
  · have order_eq : dfa.order = [] := if_pos noStates
    have nowhere : dfa.walkedStates = ∅ := by
      simp [walkedStates, walk, noStates]
    rw [order_eq, nowhere, Set.ncard_empty, List.length_nil]
  · exact inRange.ncard_reached

theorem simulatedBy_of_inRange (inRange : dfa.InRange)
    (fits : dfa.order.length ≤ tableStateSpace)
    (made : Table.ofEntries (dfa.tableEntries patternId) = .ok table) :
    SimulatedBy dfa patternId table where
  walks input nonempty := by
    rw [walk_eq_walkFrom inRange]
    have rel := (emits_of_ofEntries inRange fits made).rel_walk nonempty
    generalize table.walk input = found at rel
    generalize dfa.walkFrom dfa.start input = reached at rel
    cases rel with
    | none => exact .none
    | some enters => exact .some (enters.tells fits)
  counts := by
    rw [stateCount_eq inRange fits made, ncard_walkedStates (.inr inRange)]
    exact (Nat.max_eq_right (List.length_pos_of_mem inRange.start_mem_order)).symm

/-- The table of an automaton without states is empty. -/
theorem simulatedBy_of_size_eq_zero (noStates : dfa.size = 0)
    (made : Table.ofEntries (dfa.tableEntries patternId) = .ok table) :
    SimulatedBy dfa patternId table := by
  have order_eq : dfa.order = [] := if_pos noStates
  have noEntries : dfa.tableEntries patternId = [] := by
    rw [tableEntries, order_eq]
    rfl
  rw [noEntries] at made
  cases made
  constructor
  · intro input nonempty
    cases input with
    | nil => exact absurd rfl nonempty
    | cons symbol rest =>
        rw [walk, if_pos noStates, Table.walk, Table.walkFrom, Table.lookup_empty]
        exact .none
  · rw [ncard_walkedStates (.inl noStates), order_eq]
    rfl

/-- Of an automaton without states, or with all numbers in range, the table is refused when
the id is zero, and else when the states that are reached are too many for two bytes.
Otherwise there is a table, and it simulates the automaton. -/
theorem emit_simulates (built : dfa.size = 0 ∨ dfa.InRange) (patternId : UInt8) :
    (patternId = 0 → dfa.emit patternId = .error .patternIdZero) ∧
      (patternId ≠ 0 → tableStateSpace < dfa.walkedStates.ncard →
        dfa.emit patternId =
          .error (.limit ⟨.tableStates, tableStateSpace, dfa.walkedStates.ncard⟩)) ∧
      (patternId ≠ 0 → dfa.walkedStates.ncard ≤ tableStateSpace →
        ∃ table, dfa.emit patternId = .ok table ∧ SimulatedBy dfa patternId table) := by
  rw [ncard_walkedStates built]
  refine ⟨?_, ?_, ?_⟩
  · intro isZero
    rw [emit, if_pos isZero]
  · intro notZero tooMany
    rw [emit, if_neg notZero, if_pos tooMany]
  · intro notZero fits
    obtain ⟨table, emitted, made⟩ := exists_emit_eq_ok notZero fits
    refine ⟨table, emitted, ?_⟩
    rcases built with noStates | inRange
    · exact simulatedBy_of_size_eq_zero noStates made
    · exact simulatedBy_of_inRange inRange fits made

/-- The start is not the first state, one state is not reached, and walks go round. -/
theorem emit_simulates_doubledTurn :
    (doubledTurn.size = 0 ∨ doubledTurn.InRange) ∧
      ∃ table, doubledTurn.emit 7 = .ok table ∧ table.stateCount = 3 ∧
        (∃ transition, table.walk [97, 99, 98] = some transition ∧
          Tells doubledTurn 7 transition 3) ∧
        table.walk [98, 98] = none := by
  have inRange : doubledTurn.InRange := by decide
  have walked : doubledTurn.walkedStates = ({1, 2, 3} : Finset Nat) := by
    ext id
    constructor
    · rintro ⟨input, walk⟩
      rw [walk_eq_walkFrom inRange] at walk
      have idMem : id ∈ [1, 2, 3] := walkFrom_mem_of_closed (by decide) (by decide) walk
      simpa using idMem
    · intro idMem
      simp only [Finset.coe_insert, Finset.coe_singleton, Set.mem_insert_iff,
        Set.mem_singleton_iff] at idMem
      rcases idMem with rfl | rfl | rfl
      · exact ⟨[], by decide⟩
      · exact ⟨[97], by decide⟩
      · exact ⟨[98], by decide⟩
  have count : doubledTurn.walkedStates.ncard = 3 := by
    rw [walked, Set.ncard_coe_finset]
    rfl
  obtain ⟨-, -, simulates⟩ := emit_simulates (.inr inRange) 7
  rw [count] at simulates
  obtain ⟨table, emitted, simulated⟩ := simulates (by decide) (by decide)
  have counts := simulated.counts
  rw [count] at counts
  refine ⟨.inr inRange, table, emitted, counts, ?_, ?_⟩
  · have rel := simulated.walks [97, 99, 98] (List.cons_ne_nil _ _)
    have walk : doubledTurn.walk [97, 99, 98] = some 3 := by decide
    rw [walk] at rel
    generalize table.walk [97, 99, 98] = found at rel
    cases rel with
    | some tells => exact ⟨_, rfl, tells⟩
  · have rel := simulated.walks [98, 98] (List.cons_ne_nil _ _)
    have stuck : doubledTurn.walk [98, 98] = none := by decide
    rw [stuck] at rel
    generalize table.walk [98, 98] = found at rel
    cases rel with
    | none => rfl

end Dfa

end ByteSignature
