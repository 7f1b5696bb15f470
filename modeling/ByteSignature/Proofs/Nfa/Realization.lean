import ByteSignature.Proofs.Dfa.Agreement
import ByteSignature.Proofs.Nfa.Calls

/-!
# What a finished automaton realizes

Finishing numbers the states in the order in which they are discovered from the entry.  An
edge of a discovered state leads to a discovered state, so none of its edges is dropped, and
discovery in the finished automaton lists the same states under their numbers: zero, one, and
so on.  Only the exit may be kept without being discovered, as the last state.  Whatever the
graph, the finished automaton accepts what the paths from the entry to the exit spell.
-/

namespace ByteSignature

/-- Changing items to related ones drops none of them. -/
theorem forall₂_filterMap {α β : Type} {R : α → β → Prop} {change : α → Option β}
    {items : List α} (changes : ∀ item ∈ items, ∃ new, change item = some new ∧ R item new) :
    List.Forall₂ R items (items.filterMap change) := by
  induction items with
  | nil => exact .nil
  | cons item items ih =>
      rw [List.forall_mem_cons] at changes
      obtain ⟨⟨new, changed, related⟩, rest⟩ := changes
      rw [List.filterMap_cons_some changed]
      exact .cons related (ih rest)

namespace Nfa

open Builder

theorem bounded_targetsAt_states (nfa : Nfa) :
    Graph.Bounded (targetsAt nfa.states) nfa.size := by
  intro id _ target targetMem
  rcases List.mem_map.mp targetMem with ⟨edge, edgeMem, rfl⟩
  exact target_lt_of_mem_edges edgeMem

namespace Builder

variable {builder : Builder} {fragment : Fragment} {nfa : Nfa}

/-- The number is the place of the state in the order of discovery. -/
def Numbers (builder : Builder) (fragment : Fragment) (id number : Nat) : Prop :=
  (builder.reached fragment)[number]? = some id

theorem biUnique_numbers : Relator.BiUnique (builder.Numbers fragment) where
  left _ _ _ atFirst atSecond := Option.some.inj (atFirst.symm.trans atSecond)
  right _ _ _ atFirst atSecond := index_eq_of_getElem? nodup_reached atFirst atSecond

theorem ncard_territory (wired : builder.Wired) (startLt : fragment.start < builder.size) :
    (builder.territory fragment).ncard = (builder.reached fragment).length :=
  ncard_eq_length nodup_reached fun _ => mem_reached_iff wired startLt

/-- The edges of a discovered state lead to the numbers of their targets, in the same
order. -/
theorem Renumbers.forall₂_targetsAt (renumbers : builder.Renumbers fragment nfa)
    (wired : builder.Wired) (startLt : fragment.start < builder.size) {id number : Nat}
    (numbered : builder.Numbers fragment id number) :
    List.Forall₂ (builder.Numbers fragment) (targetsAt builder.states id)
      (targetsAt nfa.states number) := by
  rw [targetsAt, targetsAt, renumbers.states_eq,
    edgesAt_keptStates (getElem?_kept_of_getElem?_reached numbered), List.forall₂_map_left_iff,
    List.forall₂_map_right_iff]
  apply forall₂_filterMap
  intro edge edgeMem
  obtain ⟨input, path⟩ := (mem_reached_iff wired startLt).mp (List.mem_of_getElem? numbered)
  obtain ⟨target, targetNumbered⟩ := List.mem_iff_getElem?.mp
    ((mem_reached_iff wired startLt).mpr ⟨_, path.append (.single edgeMem)⟩)
  refine ⟨⟨edge.label, target⟩, ?_, targetNumbered⟩
  exact renumber_eq_some_iff.mpr ⟨rfl, getElem?_kept_of_getElem?_reached targetNumbered⟩

/-- The finished automaton discovers its states by number. -/
theorem Renumbers.reachable_eq (renumbers : builder.Renumbers fragment nfa)
    (wired : builder.Wired) (startLt : fragment.start < builder.size) :
    nfa.reachable = List.range (builder.reached fragment).length := by
  apply eq_range_of_forall₂ nodup_reached
  apply Graph.forall₂_discover biUnique_numbers
  · intro id number numbered
    exact renumbers.forall₂_targetsAt wired startLt numbered
  · rw [renumbers.start_eq]
    exact getElem?_reached_zero
  · exact bounded_targetsAt wired
  · exact startLt
  · exact nfa.bounded_targetsAt_states
  · exact nfa.start_lt_size

/-- A graph whose edges and ends belong to its states can be finished.  The automaton accepts
what the paths from the entry to the exit spell.  Its start is state 0, the states reached from
there are numbered in the order of their discovery, and besides these there is only the exit,
where it is not among them. -/
theorem finish?_realizes (wired : builder.Wired) (startLt : fragment.start < builder.size)
    (terminateLt : fragment.terminate < builder.size) :
    ∃ nfa, builder.finish? fragment = some nfa ∧
      (∀ input, nfa.accepts input = true ↔
        Path builder.wiring fragment.start input fragment.terminate) ∧
      nfa.start = 0 ∧
      nfa.reachable = List.range (builder.territory fragment).ncard ∧
      (fragment.terminate ∈ builder.territory fragment →
        nfa.size = (builder.territory fragment).ncard) ∧
      (fragment.terminate ∉ builder.territory fragment →
        nfa.size = (builder.territory fragment).ncard + 1) := by
  obtain ⟨nfa, finished, renumbers⟩ := exists_finish?_eq_some wired startLt terminateLt
  have exitReached_iff : fragment.terminate ∈ builder.reached fragment ↔
      fragment.terminate ∈ builder.territory fragment := mem_reached_iff wired startLt
  rw [ncard_territory wired startLt, ← exitReached_iff]
  refine ⟨nfa, finished, ?_, renumbers.start_eq, renumbers.reachable_eq wired startLt, ?_, ?_⟩
  · intro input
    rw [nfa.accepts_iff_path]
    exact path_iff_of_finish? wired startLt terminateLt finished input
  · intro exitReached
    rw [renumbers.size_eq, kept_of_mem_reached exitReached]
  · intro notReached
    rw [renumbers.size_eq, kept_of_notMem_reached notReached, List.length_append,
      List.length_singleton]

/-- A silent ring that can be gone through for one byte, a state that leads into it, and a
state that leads to itself alone. -/
def islands : Builder where
  states := #[
    ⟨[⟨.epsilon, 1⟩, ⟨.symbol 97, 0⟩], Nat.le_refl 2⟩,
    ⟨[⟨.epsilon, 0⟩], Nat.le_succ 1⟩,
    ⟨[⟨.symbol 98, 1⟩], Nat.le_succ 1⟩,
    ⟨[⟨.epsilon, 3⟩], Nat.le_succ 1⟩]
  limit := 4

/-- The ring is entered at its second state.  An exit in the ring is one of its two states; an
exit that only leads into it is the third, and nothing is accepted. -/
theorem finish?_realizes_islands :
    islands.Wired ∧
      (∃ nfa, islands.finish? ⟨1, 1⟩ = some nfa ∧ nfa.accepts [97, 97] = true ∧
        nfa.reachable = [0, 1] ∧ nfa.size = 2) ∧
      ∃ nfa, islands.finish? ⟨1, 2⟩ = some nfa ∧ nfa.accepts [98] = false ∧
        nfa.reachable = [0, 1] ∧ nfa.size = 3 := by
  have wired : islands.Wired := by
    intro id
    by_cases idLt : id < 4
    · exact (by decide : ∀ id < 4, ∀ edge ∈ islands.wiring id, edge.target < 4) id idLt
    · rw [wiring_of_le (Nat.not_lt.mp idLt)]
      exact List.forall_mem_nil _
  have back : ⟨.epsilon, 0⟩ ∈ islands.wiring 1 := by decide
  have around : ⟨.epsilon, 1⟩ ∈ islands.wiring 0 := by decide
  have turn : ⟨.symbol 97, 0⟩ ∈ islands.wiring 0 := by decide
  have closed : ∀ id ∈ ({0, 1} : Finset Nat), ∀ edge ∈ islands.wiring id,
      edge.target ∈ ({0, 1} : Finset Nat) := by decide
  have territory_eq (exit : Nat) : islands.territory ⟨1, exit⟩ = ({0, 1} : Finset Nat) := by
    ext id
    constructor
    · rintro ⟨input, path⟩
      exact path.mem_of_closed closed (show 1 ∈ ({0, 1} : Finset Nat) by decide)
    · intro idMem
      rcases Finset.mem_insert.mp idMem with rfl | one
      · exact ⟨[], .silent back (.stay 0)⟩
      · rw [Finset.mem_singleton.mp one]
        exact ⟨[], .stay 1⟩
  have count (exit : Nat) : (islands.territory ⟨1, exit⟩).ncard = 2 := by
    rw [territory_eq, Set.ncard_coe_finset]
    rfl
  obtain ⟨nfa, finished, accepts, -, reachable, size_eq, -⟩ :=
    @finish?_realizes islands ⟨1, 1⟩ wired (by decide) (by decide)
  obtain ⟨nfa2, finished2, accepts2, -, reachable2, -, size_eq2⟩ :=
    @finish?_realizes islands ⟨1, 2⟩ wired (by decide) (by decide)
  rw [count] at reachable size_eq reachable2 size_eq2
  have outside : 2 ∉ islands.territory ⟨1, 2⟩ := by
    rw [territory_eq]
    decide
  refine ⟨wired, ⟨nfa, finished, ?_, reachable, size_eq ?_⟩,
    ⟨nfa2, finished2, ?_, reachable2, size_eq2 outside⟩⟩
  · rw [accepts]
    exact .silent back ((Path.single turn).append
      ((Path.single turn).append (.silent around (.stay 1))))
  · exact ⟨[], .stay 1⟩
  · rw [Bool.eq_false_iff]
    intro accepted
    exact outside ⟨_, (accepts2 [98]).mp accepted⟩

end Builder

end Nfa

end ByteSignature
