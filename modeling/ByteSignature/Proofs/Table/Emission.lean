import ByteSignature.Compile.Basic
import ByteSignature.Proofs.Dfa.Shape
import ByteSignature.Proofs.Table.Ordered

/-!
# Emitted tables

The table of an automaton exists exactly when its id is not zero and its reachable states
can be numbered in two bytes.  It then moves as the automaton does, with the places of
states as numbers and the id on every entry into an accepting state, and it depends on
nothing but the description of the automaton.
-/

namespace ByteSignature

namespace Dfa

variable {dfa dfa2 : Dfa} {patternId : UInt8} {table : Table}

theorem mem_tableEntries_iff {entry : Table.Entry} :
    entry ∈ dfa.tableEntries patternId ↔
      ∃ (place id : Nat) (symbol : UInt8) (target : Nat), dfa.order[place]? = some id ∧
        dfa.target? id symbol = some target ∧
        entry = ⟨place.toUInt16, symbol, (dfa.places.getD target 0).toUInt16,
          dfa.acceptFlag patternId target⟩ := by
  simp only [tableEntries, List.mem_flatMap, List.mem_map, Prod.exists,
    List.mk_mem_zipIdx_iff_getElem?, mem_sortedEdges_iff]
  constructor
  · rintro ⟨id, place, atPlace, symbol, target, edge, rfl⟩
    exact ⟨place, id, symbol, target, atPlace, edge, rfl⟩
  · rintro ⟨place, id, symbol, target, atPlace, edge, rfl⟩
    exact ⟨id, place, atPlace, symbol, target, edge, rfl⟩

/-- No two entries share a state and a byte. -/
theorem nodup_tableEntries (patternId : UInt8) (fits : dfa.order.length ≤ tableStateSpace) :
    ((dfa.tableEntries patternId).map Table.Entry.key).Nodup := by
  apply Table.nodup_keys_flatMap Prod.snd
  · rw [List.zipIdx_map_snd]
    exact List.nodup_range'
  · intro source sourceMem
    exact Nat.lt_of_lt_of_le (List.snd_lt_of_mem_zipIdx sourceMem) fits
  · intro source _ entry entryMem
    rcases List.mem_map.mp entryMem with ⟨edge, _, rfl⟩
    rfl
  · intro source _
    rw [List.map_map]
    exact (dfa.state source.1).nodup_sortedEdges

/-- The table of an automaton exists when its id is not zero and its states can be
numbered. -/
theorem exists_emit_eq_ok (patternIdNe : patternId ≠ 0)
    (fits : dfa.order.length ≤ tableStateSpace) :
    ∃ table, dfa.emit patternId = .ok table ∧
      Table.ofEntries (dfa.tableEntries patternId) = .ok table := by
  obtain ⟨table, made⟩ := Table.exists_ofEntries_eq_ok_iff.mpr
    (nodup_tableEntries patternId fits)
  refine ⟨table, ?_, made⟩
  rw [emit, if_neg patternIdNe, if_neg (Nat.not_lt.mpr fits), made]

/-- A table was emitted only if the states can be numbered. -/
theorem of_emit_eq_ok (emitted : dfa.emit patternId = .ok table) :
    dfa.order.length ≤ tableStateSpace ∧
      Table.ofEntries (dfa.tableEntries patternId) = .ok table := by
  rw [emit] at emitted
  split at emitted
  · cases emitted
  · split at emitted
    · cases emitted
    · rename_i fits
      refine ⟨Nat.not_lt.mp fits, ?_⟩
      cases made : Table.ofEntries (dfa.tableEntries patternId) with
      | error second =>
          rw [made] at emitted
          cases emitted
      | ok table2 =>
          rw [made] at emitted
          cases emitted
          rfl

/-- The entries of an automaton are in the order of a table. -/
theorem pairwise_tableEntries (patternId : UInt8) (fits : dfa.order.length ≤ tableStateSpace) :
    (dfa.tableEntries patternId).Pairwise Table.Entry.Before := by
  rw [tableEntries, List.pairwise_flatMap]
  constructor
  · intro source _
    have sorted :=
      (dfa.state source.1).pairwise_sortedEdges.and (dfa.state source.1).nodup_sortedEdges
    rw [List.pairwise_map] at sorted
    rw [List.pairwise_map]
    refine sorted.imp ?_
    rintro first second ⟨le, ne⟩
    exact .inr ⟨rfl, UInt8.lt_of_le_of_ne le ne⟩
  · have numbers : (dfa.order.zipIdx.map Prod.snd).Pairwise (· < ·) := by
      rw [List.zipIdx_map_snd]
      exact List.pairwise_lt_range'
    rw [List.pairwise_map] at numbers
    refine numbers.imp_of_mem ?_
    intro first second firstMem secondMem lt entry entryMem entry2 entryMem2
    obtain ⟨edge, -, rfl⟩ := List.mem_map.mp entryMem
    obtain ⟨edge2, -, rfl⟩ := List.mem_map.mp entryMem2
    have firstLt := Nat.lt_of_lt_of_le (List.snd_lt_of_mem_zipIdx firstMem) fits
    have secondLt := Nat.lt_of_lt_of_le (List.snd_lt_of_mem_zipIdx secondMem) fits
    left
    rwa [UInt16.lt_iff_toNat_lt, toNat_toUInt16 firstLt, toNat_toUInt16 secondLt]

/-- The entries of an emitted table are those of the automaton, in the same order. -/
theorem entries_eq_tableEntries (fits : dfa.order.length ≤ tableStateSpace)
    (made : Table.ofEntries (dfa.tableEntries patternId) = .ok table) :
    table.entries = dfa.tableEntries patternId := by
  refine (Table.ofEntries_eq_ok_iff.mp made).symm.eq_of_pairwise ?_ table.pairwise_entries
    (pairwise_tableEntries patternId fits)
  rintro first second - - before behind
  exact absurd behind before.asymm

/-! ## Simulation -/

/-- The number of a table is the place of a state. -/
def Coded (dfa : Dfa) (code : UInt16) (id : Nat) : Prop :=
  ∃ place : Nat, dfa.order[place]? = some id ∧ code = place.toUInt16

/-- The transition leads into a state. -/
def Enters (dfa : Dfa) (patternId : UInt8) (transition : Table.Transition) (id : Nat) : Prop :=
  Coded dfa transition.next id ∧ transition.accept = dfa.acceptFlag patternId id

/-- The table moves as the automaton does. -/
structure Emits (dfa : Dfa) (patternId : UInt8) (table : Table) : Prop where
  start : Coded dfa 0 dfa.start
  lookup : ∀ {code id}, Coded dfa code id → ∀ symbol,
    Option.Rel (Enters dfa patternId) (table.lookup code symbol) (dfa.target? id symbol)

theorem emits_of_ofEntries (inRange : dfa.InRange) (fits : dfa.order.length ≤ tableStateSpace)
    (made : Table.ofEntries (dfa.tableEntries patternId) = .ok table) :
    Emits dfa patternId table where
  start := ⟨0, inRange.getElem?_order_zero, rfl⟩
  lookup := by
    rintro code id ⟨place, atPlace, rfl⟩ symbol
    have place_lt {place id : Nat} (atPlace : dfa.order[place]? = some id) :
        place < tableStateSpace :=
      Nat.lt_of_lt_of_le (List.getElem?_eq_some_iff.mp atPlace).1 fits
    cases edge : dfa.target? id symbol with
    | none =>
        cases found : table.lookup place.toUInt16 symbol with
        | none => exact .none
        | some transition =>
            obtain ⟨place2, id2, symbol2, target, atPlace2, edge2, eq⟩ :=
              mem_tableEntries_iff.mp ((Table.lookup_ofEntries made).mp found)
            obtain ⟨sameCode, rfl, _⟩ := Table.Entry.mk.inj eq
            rw [toUInt16_inj (place_lt atPlace) (place_lt atPlace2)] at sameCode
            subst sameCode
            rw [atPlace, Option.some.injEq] at atPlace2
            subst atPlace2
            rw [edge] at edge2
            cases edge2
    | some target =>
        obtain ⟨next, atNext⟩ := List.mem_iff_getElem?.mp
          (inRange.target_mem_order (List.mem_of_getElem? atPlace) edge)
        have found : table.lookup place.toUInt16 symbol =
            some ⟨next.toUInt16, dfa.acceptFlag patternId target⟩ := by
          rw [Table.lookup_ofEntries made, mem_tableEntries_iff]
          refine ⟨place, id, symbol, target, atPlace, edge, ?_⟩
          rw [getD_places atNext]
          rfl
        rw [found]
        exact .some ⟨⟨next, atNext, rfl⟩, rfl⟩

namespace Emits

theorem rel_stateAfter (emits : Emits dfa patternId table) {code : UInt16} {id : Nat}
    (coded : Coded dfa code id) (input : List UInt8) :
    Option.Rel (Coded dfa) (table.stateAfter code input) (dfa.walkFrom id input) := by
  induction input generalizing code id with
  | nil => exact .some coded
  | cons symbol rest ih =>
      have step := emits.lookup coded symbol
      rw [Table.stateAfter, walkFrom]
      generalize table.lookup code symbol = found at step
      generalize dfa.target? id symbol = edge at step
      cases step with
      | none => exact .none
      | some enters => exact ih enters.1

theorem rel_walkFrom (emits : Emits dfa patternId table) {transition : Table.Transition}
    {id : Nat} (enters : Enters dfa patternId transition id) (input : List UInt8) :
    Option.Rel (Enters dfa patternId)
      (table.walkFrom transition.next (some transition) input) (dfa.walkFrom id input) := by
  induction input generalizing transition id with
  | nil => exact .some enters
  | cons symbol rest ih =>
      have step := emits.lookup enters.1 symbol
      rw [Table.walkFrom, walkFrom]
      generalize table.lookup transition.next symbol = found at step
      generalize dfa.target? id symbol = edge at step
      cases step with
      | none => exact .none
      | some enters => exact ih enters

/-- A walk of at least one byte ends with a transition into the state it leads to. -/
theorem rel_walk (emits : Emits dfa patternId table) {input : List UInt8}
    (nonempty : input ≠ []) :
    Option.Rel (Enters dfa patternId) (table.walk input) (dfa.walkFrom dfa.start input) := by
  cases input with
  | nil => exact absurd rfl nonempty
  | cons symbol rest =>
      have step := emits.lookup emits.start symbol
      rw [Table.walk, Table.walkFrom, walkFrom]
      generalize table.lookup 0 symbol = found at step
      generalize dfa.target? dfa.start symbol = edge at step
      cases step with
      | none => exact .none
      | some enters => exact emits.rel_walkFrom enters rest

end Emits

/-! ## Descriptions -/

/-- The entries of the automaton with a given description. -/
def shapeEntries (shape : List ShapeState) (patternId : UInt8) : List Table.Entry :=
  shape.zipIdx.flatMap fun source =>
    source.1.edges.map fun edge =>
      { state := source.2.toUInt16
        symbol := edge.1
        next := edge.2.toUInt16
        accept := if (shape[edge.2]?).any ShapeState.accepting then patternId else 0 }

theorem tableEntries_eq (inRange : dfa.InRange) (patternId : UInt8) :
    dfa.tableEntries patternId = shapeEntries dfa.shape patternId := by
  have zipped : dfa.shape.zipIdx = dfa.order.zipIdx.map fun source =>
      (({ accepting := dfa.isAccepting source.1
          edges := (dfa.state source.1).sortedEdges.map fun edge =>
            (edge.1, dfa.places.getD edge.2 0) } : ShapeState), source.2) := by
    rw [shape, List.zipIdx_map]
    rfl
  rw [tableEntries, shapeEntries, zipped, List.flatMap_map]
  apply List.flatMap_congr
  rintro ⟨id, place⟩ sourceMem
  rw [List.map_map]
  apply List.map_congr_left
  rintro ⟨symbol, target⟩ edgeMem
  have idMem := List.fst_mem_of_mem_zipIdx sourceMem
  obtain ⟨next, atNext⟩ := List.mem_iff_getElem?.mp
    (inRange.target_mem_order idMem (mem_sortedEdges_iff.mp edgeMem))
  simp only [Function.comp_apply, getD_places atNext, getElem?_shape atNext, Option.any_some,
    acceptFlag]

/-- Automata with equal descriptions have equal tables. -/
theorem emit_eq_of_shape_eq (inRange : dfa.InRange) (inRange2 : dfa2.InRange)
    (shape_eq : dfa.shape = dfa2.shape) (patternId : UInt8) :
    dfa.emit patternId = dfa2.emit patternId := by
  have length_eq : dfa.order.length = dfa2.order.length := by
    rw [← length_shape, ← length_shape, shape_eq]
  rw [emit, emit, length_eq, tableEntries_eq inRange, tableEntries_eq inRange2, shape_eq]

end Dfa

end ByteSignature
