import ByteSignature.Proofs.Dfa.Merge
import ByteSignature.Proofs.Dfa.Shape
import Mathlib.Data.Set.Card

/-!
# What minimization keeps

Besides its language, an automaton shows where its walks get stuck, which a scan takes as a
miss.  Minimization keeps both and forgets everything else: minimized automata have the same
description exactly when no input tells the automata they come from apart.  It never needs
more states than can be reached, and leaves none that is not reached or is like another.
-/

namespace ByteSignature.Dfa

variable {dfa dfa2 : Dfa}

/-- Two walks end alike: both get stuck, or neither does and inputs may end where the one
leads exactly when they may end where the other leads. -/
def SameEnd (dfa dfa2 : Dfa) : Option Nat → Option Nat → Prop :=
  Option.Rel fun id id2 => dfa.isAccepting id = dfa2.isAccepting id2

theorem sameEnd_iff_map_eq {reached reached2 : Option Nat} :
    SameEnd dfa dfa2 reached reached2 ↔
      reached.map dfa.isAccepting = reached2.map dfa2.isAccepting := by
  constructor
  · intro same
    cases same with
    | none => rfl
    | some agree => exact congrArg some agree
  · intro agree
    cases reached with
    | none =>
        cases reached2 with
        | none => exact .none
        | some id2 => cases agree
    | some id =>
        cases reached2 with
        | none => cases agree
        | some id2 => exact .some (Option.some.inj agree)

/-- Walks that end alike lead somewhere for the same inputs. -/
theorem SameEnd.isSome_eq {reached reached2 : Option Nat}
    (same : SameEnd dfa dfa2 reached reached2) : reached.isSome = reached2.isSome := by
  cases same <;> rfl

theorem alike_iff_sameEnd {id id2 : Nat} : Alike dfa dfa2 id id2 ↔
    ∀ input, SameEnd dfa dfa2 (dfa.walkFrom id input) (dfa2.walkFrom id2 input) := by
  simp only [sameEnd_iff_map_eq]
  rfl

/-- From the starts, states that are alike are walks that end alike. -/
theorem alike_start_iff_sameEnd (inRange : dfa.InRange) (inRange2 : dfa2.InRange) :
    Alike dfa dfa2 dfa.start dfa2.start ↔
      ∀ input, SameEnd dfa dfa2 (dfa.walk input) (dfa2.walk input) := by
  simp only [walk_eq_walkFrom inRange, walk_eq_walkFrom inRange2]
  exact alike_iff_sameEnd

theorem state_eq_of_getElem?_eq_some {id : Nat} {state : State}
    (found : dfa.states[id]? = some state) : dfa.state id = state := by
  rw [Dfa.state, Array.getD_eq_getD_getElem?, found]
  rfl

/-- It takes one look at every edge to see that all numbers belong to states. -/
theorem inRange_iff_forall_mem : dfa.InRange ↔
    dfa.start < dfa.size ∧ ∀ state ∈ dfa.states, ∀ edge ∈ state.edges, edge.2 < dfa.size := by
  constructor
  · intro inRange
    refine ⟨inRange.start_lt, ?_⟩
    intro state stateMem edge edgeMem
    obtain ⟨id, found⟩ := Array.mem_iff_getElem?.mp stateMem
    have leads : dfa.target? id edge.1 = some edge.2 := by
      rw [Dfa.target?, state_eq_of_getElem?_eq_some found]
      exact State.target?_eq_some_iff.mpr edgeMem
    exact inRange.target_lt leads
  · rintro ⟨start_lt, targets_lt⟩
    refine ⟨start_lt, ?_⟩
    intro id symbol target edge
    by_cases idLt : id < dfa.states.size
    · rw [Dfa.target?, state_eq_of_getElem?_eq_some (Array.getElem?_eq_getElem idLt)] at edge
      exact targets_lt _ (Array.getElem_mem idLt) _ (State.target?_eq_some_iff.mp edge)
    · rw [target?_of_le (Nat.not_lt.mp idLt)] at edge
      cases edge

instance (dfa : Dfa) : Decidable dfa.InRange :=
  decidable_of_iff _ inRange_iff_forall_mem.symm

/-- The states that an input leads to. -/
def walkedStates (dfa : Dfa) : Set Nat :=
  {id | ∃ input, dfa.walk input = some id}

/-- The canonical order has one place for every state that walks lead to. -/
theorem InRange.ncard_reached (inRange : dfa.InRange) :
    {id | ∃ input, dfa.walk input = some id}.ncard = dfa.order.length := by
  apply ncard_eq_length dfa.nodup_order
  intro id
  rw [inRange.mem_order_iff, Set.mem_ofPred_eq, funext (walk_eq_walkFrom inRange)]

/-! ## Minimized automata -/

namespace Minimizes

variable {minimal minimal2 : Dfa}

/-- The states of a minimized automaton differ in behaviour. -/
theorem reduced (minimizes : Minimizes dfa minimal) : minimal.Reduced := by
  intro id idMem id2 id2Mem
  exact minimizes.separated id (minimizes.inRange.lt_of_mem_order idMem) id2
    (minimizes.inRange.lt_of_mem_order id2Mem)

/-- All states of a minimized automaton are described. -/
theorem length_shape_eq (minimizes : Minimizes dfa minimal) :
    minimal.shape.length = minimal.size := by
  have onto : List.range minimal.size ⊆ minimal.order := by
    intro id idMem
    exact minimizes.inRange.mem_order_iff.mpr (minimizes.reached id (List.mem_range.mp idMem))
  have le := (List.subperm_of_subset List.nodup_range onto).length_le
  rw [List.length_range] at le
  rw [length_shape]
  exact Nat.le_antisymm minimizes.inRange.length_order_le le

/-- Descriptions of minimized automata are equal exactly when no input tells the automata
they come from apart. -/
theorem shape_eq_iff (minimizes : Minimizes dfa minimal) (minimizes2 : Minimizes dfa2 minimal2) :
    minimal.shape = minimal2.shape ↔ Alike dfa dfa2 dfa.start dfa2.start := by
  constructor
  · intro shape_eq
    have between := alike_of_shape_eq minimizes.inRange minimizes2.inRange shape_eq
    exact (minimizes.alike.trans between).trans minimizes2.alike.symm
  · intro alike
    apply shape_eq_of_alike minimizes.inRange minimizes2.inRange minimizes.reduced
      minimizes2.reduced
    exact (minimizes.alike.symm.trans alike).trans minimizes2.alike

end Minimizes

/-- Minimization leaves an automaton whose walks end as before, with no more states than
could be reached before, each of them reached. -/
theorem minimize_keeps_walks (inRange : dfa.InRange) :
    dfa.minimize.InRange ∧
      (∀ input, ((dfa.minimize.walk input).isSome ↔ (dfa.walk input).isSome) ∧
        ∀ id place, dfa.walk input = some id → dfa.minimize.walk input = some place →
          dfa.minimize.isAccepting place = dfa.isAccepting id) ∧
      dfa.minimize.size ≤ {id | ∃ input, dfa.walk input = some id}.ncard ∧
      ∀ place < dfa.minimize.size, ∃ input, dfa.minimize.walk input = some place := by
  have minimizes := minimizes_minimize inRange
  have sameEnd := (alike_start_iff_sameEnd inRange minimizes.inRange).mp minimizes.alike
  refine ⟨minimizes.inRange, ?_, ?_, ?_⟩
  · intro input
    have same := sameEnd input
    refine ⟨by rw [same.isSome_eq], ?_⟩
    intro id place walk minimalWalk
    rw [walk, minimalWalk] at same
    cases same with
    | some agree => exact agree.symm
  · rw [inRange.ncard_reached]
    exact minimizes.size_le
  · intro place placeLt
    rw [funext (walk_eq_walkFrom minimizes.inRange)]
    exact minimizes.reached place placeLt

/-- Two states that accept and differ in nothing, a start that is not the first state, and a
state that is not reached. -/
def doubledTurn : Dfa :=
  { (((((((((empty.addState true).addState false).addState true).addState true).addEdge 1 97 2
      ).addEdge 1 98 3).addEdge 2 99 1).addEdge 3 99 1).addEdge 0 98 1) with start := 1 }

/-- The two states may become one, yet walks go on and get stuck as before. -/
theorem minimize_keeps_walks_doubledTurn : doubledTurn.InRange ∧
    (∃ place, doubledTurn.minimize.walk [97, 99, 98] = some place ∧
      doubledTurn.minimize.isAccepting place = true) ∧
    doubledTurn.minimize.walk [98, 98] = none := by
  have inRange : doubledTurn.InRange := by decide
  have keeps := (minimize_keeps_walks inRange).2.1
  refine ⟨inRange, ?_, ?_⟩
  · have walk : doubledTurn.walk [97, 99, 98] = some 3 := by decide
    obtain ⟨present, agree⟩ := keeps [97, 99, 98]
    obtain ⟨place, minimalWalk⟩ := Option.isSome_iff_exists.mp (present.mpr (by rw [walk]; rfl))
    exact ⟨place, minimalWalk, (agree 3 place walk minimalWalk).trans (by decide)⟩
  · have stuck : doubledTurn.walk [98, 98] = none := by decide
    rw [← Option.not_isSome_iff_eq_none, (keeps [98, 98]).1, stuck]
    exact Bool.false_ne_true

/-- Minimized automata have equal descriptions exactly when walks of the automata they come
from end alike for every input.  So minimizing again changes nothing, and from different
states of a minimized automaton some walks end differently. -/
theorem minimize_complete (inRange : dfa.InRange) (inRange2 : dfa2.InRange) :
    (dfa.minimize.shape = dfa2.minimize.shape ↔
        ∀ input, SameEnd dfa dfa2 (dfa.walk input) (dfa2.walk input)) ∧
      dfa.minimize.minimize.shape = dfa.minimize.shape ∧
      dfa.minimize.minimize.size = dfa.minimize.size ∧
      ∀ id < dfa.minimize.size, ∀ id2 < dfa.minimize.size,
        (∀ input, SameEnd dfa.minimize dfa.minimize (dfa.minimize.walkFrom id input)
          (dfa.minimize.walkFrom id2 input)) → id = id2 := by
  have minimizes := minimizes_minimize inRange
  have again := minimizes_minimize minimizes.inRange
  have shape_eq : dfa.minimize.minimize.shape = dfa.minimize.shape :=
    (again.shape_eq_iff minimizes).mpr minimizes.alike.symm
  refine ⟨?_, shape_eq, ?_, ?_⟩
  · rw [minimizes.shape_eq_iff (minimizes_minimize inRange2),
      alike_start_iff_sameEnd inRange inRange2]
  · rw [← again.length_shape_eq, ← minimizes.length_shape_eq, shape_eq]
  · intro id idLt id2 id2Lt sameEnd
    exact minimizes.separated id idLt id2 id2Lt (alike_iff_sameEnd.mpr sameEnd)

/-- A ring of two states, both accepting. -/
def twoStateRing : Dfa :=
  (((empty.addState true).addState true).addEdge 0 97 1).addEdge 1 97 0

/-- A ring of one state. -/
def oneStateRing : Dfa :=
  (empty.addState true).addEdge 0 97 0

/-- The number of states in the ring leaves no trace. -/
theorem minimize_complete_rings :
    twoStateRing.InRange ∧ oneStateRing.InRange ∧
      twoStateRing.minimize.shape = oneStateRing.minimize.shape := by
  have inRange : twoStateRing.InRange := by decide
  have inRange2 : oneStateRing.InRange := by decide
  have first (symbol : UInt8) : twoStateRing.target? 0 symbol = [(97, 1)].lookup symbol := rfl
  have second (symbol : UInt8) : twoStateRing.target? 1 symbol = [(97, 0)].lookup symbol := rfl
  have only (symbol : UInt8) : oneStateRing.target? 0 symbol = [(97, 0)].lookup symbol := rfl
  refine ⟨inRange, inRange2, (minimize_complete inRange inRange2).1.mpr ?_⟩
  rw [← alike_start_iff_sameEnd inRange inRange2]
  apply alike_of_bisimulation (R := fun id id2 => (id = 0 ∨ id = 1) ∧ id2 = 0) _ _ (by decide)
  · rintro id id2 ⟨rfl | rfl, rfl⟩ <;> rfl
  · intro id id2 related symbol
    by_cases isLetter : symbol = 97
    · subst isLetter
      rcases related with ⟨rfl | rfl, rfl⟩ <;> exact .some (by decide)
    · have different : (symbol == 97) = false := by simpa using isLetter
      rcases related with ⟨rfl | rfl, rfl⟩ <;>
        simp [first, second, only, List.lookup_cons, different]

end ByteSignature.Dfa
