import ByteSignature.Proofs.Graph.Growth
import ByteSignature.Proofs.Nfa.Closure

/-!
# Closures are what silent edges reach

The closure of some states comes from walking a sequence that grows: from the states
themselves on, the targets of silent edges are added behind the others.  The walk ends, also
where silent edges lead in a circle, and sorting what it ends with gives the states that silent
edges reach, each once.
-/

namespace ByteSignature.Nfa

variable {nfa : Nfa} {seeds seeds2 : List Nat}

/-- A silent edge leads from one state to another. -/
def Silent (nfa : Nfa) (source target : Nat) : Prop :=
  ⟨.epsilon, target⟩ ∈ nfa.edges source

theorem leads_silentTargetsAt (nfa : Nfa) :
    Graph.Leads (silentTargetsAt nfa.states) = nfa.Silent := by
  funext source target
  exact propext mem_silentTargetsAt

theorem mem_closure_iff_silent (seedsLt : ∀ seed ∈ seeds, seed < nfa.size) {id : Nat} :
    id ∈ nfa.closure seeds ↔ ∃ seed ∈ seeds, Relation.ReflTransGen nfa.Silent seed id := by
  rw [closure, List.mem_mergeSort, ← leads_silentTargetsAt]
  exact Graph.mem_discover_iff (bounded_silentTargetsAt nfa) seedsLt

/-- Only the set of states counts that a closure is taken of. -/
theorem closure_congr (seedsLt : ∀ seed ∈ seeds, seed < nfa.size)
    (same : ∀ id, id ∈ seeds2 ↔ id ∈ seeds) : nfa.closure seeds2 = nfa.closure seeds := by
  have seeds2Lt : ∀ seed ∈ seeds2, seed < nfa.size := fun seed seedMem =>
    seedsLt seed ((same seed).mp seedMem)
  apply closure_eq_of_mem_iff
  intro id
  simp only [mem_closure_iff_silent seedsLt, mem_closure_iff_silent seeds2Lt, same]

/-- A closure is closed. -/
theorem closure_closure (seedsLt : ∀ seed ∈ seeds, seed < nfa.size) :
    nfa.closure (nfa.closure seeds) = nfa.closure seeds := by
  apply closure_eq_of_mem_iff
  intro id
  rw [mem_closure_iff_silent fun _ => lt_of_mem_closure seedsLt]
  constructor
  · rintro ⟨middle, middleMem, silent⟩
    rcases (mem_closure_iff_silent seedsLt).mp middleMem with ⟨seed, seedMem, before⟩
    exact (mem_closure_iff_silent seedsLt).mpr ⟨seed, seedMem, before.trans silent⟩
  · intro idMem
    exact ⟨id, idMem, .refl⟩

/-- The walk along silent edges ends, in one way, and the closure lists the states that it ends
with: those that silent edges reach from the given ones, in strictly ascending order.  So only
the set of the given states counts, and the closure of a closure is the closure itself. -/
theorem closure_computes (nfa : Nfa) (seeds : List Nat)
    (seedsLt : ∀ seed ∈ seeds, seed < nfa.size) :
    (∃! last, Graph.Walk (silentTargetsAt nfa.states) 0 (Sequence.empty.addMany seeds) last ∧
        nfa.closure seeds = last.toList.mergeSort) ∧
      (nfa.closure seeds).Pairwise (· < ·) ∧
      (∀ id, id ∈ nfa.closure seeds ↔
        ∃ seed ∈ seeds, Relation.ReflTransGen nfa.Silent seed id) ∧
      (∀ seeds2 : List Nat, (∀ id, id ∈ seeds2 ↔ id ∈ seeds) →
        nfa.closure seeds2 = nfa.closure seeds) ∧
      nfa.closure (nfa.closure seeds) = nfa.closure seeds := by
  refine ⟨?_, nfa.pairwise_lt_closure seeds, fun _ => mem_closure_iff_silent seedsLt,
    fun _ same => closure_congr seedsLt same, closure_closure seedsLt⟩
  obtain ⟨last, walk, last_eq⟩ := Graph.exists_walk (bounded_silentTargetsAt nfa) seedsLt
  refine ⟨last, ⟨walk, ?_⟩, ?_⟩
  · rw [last_eq, closure]
  · rintro last2 ⟨walk2, -⟩
    exact walk2.unique walk

/-- Two states on a circle of silent edges, one that it can be left to, and one apart. -/
def silentTurn : Nfa where
  states := #[
    ⟨[⟨.epsilon, 1⟩], by decide⟩,
    ⟨[⟨.epsilon, 0⟩, ⟨.epsilon, 2⟩], by decide⟩,
    ⟨[⟨.symbol 97, 3⟩], by decide⟩,
    ⟨[], by decide⟩]
  start := 0
  terminate := 3
  start_lt_size := by decide
  terminate_lt_size := by decide
  target_lt_size := by decide

/-- The circle is left after going around it, and a seed that is given twice counts once. -/
theorem closure_computes_silentTurn : (∀ seed ∈ [1, 0, 1], seed < silentTurn.size) ∧
    2 ∈ silentTurn.closure [1, 0, 1] ∧ 3 ∉ silentTurn.closure [1, 0, 1] ∧
    silentTurn.closure [0, 1] = silentTurn.closure [1, 0, 1] := by
  have seedsLt : ∀ seed ∈ [1, 0, 1], seed < silentTurn.size := by decide
  obtain ⟨-, -, mem_iff, congr, -⟩ := closure_computes silentTurn [1, 0, 1] seedsLt
  refine ⟨seedsLt, ?_, ?_, congr [0, 1] (by simp)⟩
  · have around : silentTurn.Silent 0 1 := by
      change _ ∈ silentTurn.edges 0
      decide
    have leave : silentTurn.Silent 1 2 := by
      change _ ∈ silentTurn.edges 1
      decide
    exact (mem_iff 2).mpr ⟨0, by decide, .tail (.single around) leave⟩
  · have notEntered (source : Nat) : ¬ silentTurn.Silent source 3 := by
      change _ ∉ silentTurn.edges source
      by_cases inside : source < 4
      · exact (by decide : ∀ source < 4, ⟨.epsilon, 3⟩ ∉ silentTurn.edges source) source inside
      · have missing : silentTurn.states[source]? = none :=
          Array.getElem?_eq_none (Nat.not_lt.mp inside)
        rw [edges, edgesAt, missing]
        exact List.not_mem_nil
    rw [mem_iff]
    rintro ⟨seed, seedMem, silent⟩
    cases silent with
    | refl => exact absurd seedMem (by decide)
    | tail _ last => exact notEntered _ last

end ByteSignature.Nfa
