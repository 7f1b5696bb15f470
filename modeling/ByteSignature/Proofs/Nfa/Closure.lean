import ByteSignature.Proofs.Graph.Discovery
import ByteSignature.Proofs.Nfa.Path

/-!
# Live sets of states

The closure of some states is what silent paths lead to from them.  A set represents an
input when its members are the states that the input leads to from the start; closing
the targets of a byte gives a set that represents the input with that byte behind it.
-/

namespace ByteSignature.Nfa

namespace Path

variable {wiring : Wiring} {source target : Nat} {first second : List UInt8}

/-- A path can be cut wherever its input can. -/
theorem exists_append (path : Path wiring source (first ++ second) target) :
    ∃ middle, Path wiring source first middle ∧ Path wiring middle second target := by
  induction first generalizing source with
  | nil => exact ⟨source, .stay source, path⟩
  | cons byte first ih =>
      obtain ⟨before, after, silent, edgeMem, rest⟩ := path.exists_edge_of_cons
      obtain ⟨middle, afterPath, middlePath⟩ := ih rest
      refine ⟨middle, ?_, middlePath⟩
      exact silent.append ((Path.single edgeMem).append afterPath)

/-- The last byte of an input is read by an edge with silent ones behind it. -/
theorem append_singleton_iff {byte : UInt8} : Path wiring source (first ++ [byte]) target ↔
    ∃ before after, Path wiring source first before ∧
      ⟨.symbol byte, after⟩ ∈ wiring before ∧ Path wiring after [] target := by
  constructor
  · intro path
    obtain ⟨middle, firstPath, last⟩ := path.exists_append
    obtain ⟨before, after, silent, edgeMem, rest⟩ := last.exists_edge_of_cons
    refine ⟨before, after, ?_, edgeMem, rest⟩
    rw [← List.append_nil first]
    exact firstPath.append silent
  · rintro ⟨before, after, firstPath, edgeMem, rest⟩
    exact firstPath.append ((Path.single edgeMem).append rest)

end Path

variable {nfa : Nfa}

theorem target_lt_of_mem_edges {id : Nat} {edge : Edge} (edgeMem : edge ∈ nfa.edges id) :
    edge.target < nfa.size := by
  rw [edges, edgesAt] at edgeMem
  split at edgeMem
  · rename_i state found
    exact nfa.target_lt_size state (Array.mem_of_getElem? found) edge edgeMem
  · cases edgeMem

/-! ## Silent paths -/

theorem mem_silentTargetsAt {id target : Nat} :
    target ∈ silentTargetsAt nfa.states id ↔ ⟨.epsilon, target⟩ ∈ nfa.edges id := by
  simp only [silentTargetsAt, edges, List.mem_map, List.mem_filter, beq_iff_eq]
  constructor
  · rintro ⟨⟨_, _⟩, ⟨edgeMem, rfl⟩, rfl⟩
    exact edgeMem
  · intro edgeMem
    exact ⟨_, ⟨edgeMem, rfl⟩, rfl⟩

theorem bounded_silentTargetsAt (nfa : Nfa) :
    Graph.Bounded (silentTargetsAt nfa.states) nfa.size := by
  intro id _ target targetMem
  exact target_lt_of_mem_edges (mem_silentTargetsAt.mp targetMem)

theorem reaches_silentTargetsAt_iff {source target : Nat} :
    Graph.Reaches (silentTargetsAt nfa.states) source target ↔
      Path nfa.edges source [] target := by
  constructor
  · intro reaches
    induction reaches with
    | refl => exact .stay source
    | tail _ last ih => exact ih.append (Path.single (mem_silentTargetsAt.mp last))
  · intro path
    generalize spelled : [] = input at path
    induction path with
    | stay => exact .refl
    | @step source target edge rest edgeMem path ih =>
        rcases edge with ⟨label, middle⟩
        cases label with
        | epsilon => exact .head (mem_silentTargetsAt.mpr edgeMem) (ih spelled)
        | symbol byte => cases spelled

/-- The closure of some states is what silent paths lead to from them. -/
theorem mem_closure_iff {seeds : List Nat} (seedsLt : ∀ seed ∈ seeds, seed < nfa.size)
    {id : Nat} : id ∈ nfa.closure seeds ↔ ∃ seed ∈ seeds, Path nfa.edges seed [] id := by
  rw [closure, List.mem_mergeSort]
  exact (Graph.mem_discover_iff (bounded_silentTargetsAt nfa) seedsLt).trans
    (exists_congr fun seed => and_congr_right fun _ => reaches_silentTargetsAt_iff)

/-- A closure is listed in strictly ascending order. -/
theorem pairwise_lt_closure (nfa : Nfa) (seeds : List Nat) :
    (nfa.closure seeds).Pairwise (· < ·) := by
  have listed := Graph.nodup_discover (silentTargetsAt nfa.states) nfa.size seeds
  have nodup : (nfa.closure seeds).Nodup := (List.mergeSort_perm _ _).nodup_iff.mpr listed
  have sorted : (nfa.closure seeds).Pairwise fun first second => decide (first ≤ second) := by
    apply List.pairwise_mergeSort
    · intro first second third
      simp only [decide_eq_true_eq]
      exact Nat.le_trans
    · intro first second
      simpa using Nat.le_total first second
  apply (sorted.and nodup).imp
  rintro first second ⟨le, ne⟩
  exact Nat.lt_of_le_of_ne (of_decide_eq_true le) ne

/-- Closures with the same members are listed alike. -/
theorem closure_eq_of_mem_iff {seeds seeds2 : List Nat}
    (same : ∀ id, id ∈ nfa.closure seeds ↔ id ∈ nfa.closure seeds2) :
    nfa.closure seeds = nfa.closure seeds2 := by
  have ascending := nfa.pairwise_lt_closure seeds
  have ascending2 := nfa.pairwise_lt_closure seeds2
  have perm : (nfa.closure seeds).Perm (nfa.closure seeds2) :=
    (List.perm_ext_iff_of_nodup (ascending.imp Nat.ne_of_lt) (ascending2.imp Nat.ne_of_lt)).mpr
      same
  apply perm.eq_of_pairwise _ ascending ascending2
  intro first second _ _ lt lt2
  exact absurd lt (Nat.lt_asymm lt2)

theorem lt_of_mem_closure {seeds : List Nat} (seedsLt : ∀ seed ∈ seeds, seed < nfa.size)
    {id : Nat} (idMem : id ∈ nfa.closure seeds) : id < nfa.size := by
  rw [closure, List.mem_mergeSort] at idMem
  exact Graph.lt_of_mem_discover (bounded_silentTargetsAt nfa) seedsLt idMem

/-! ## Bytes -/

theorem mem_move_iff {set : List Nat} {byte : UInt8} {id : Nat} :
    id ∈ nfa.move set byte ↔ ∃ source ∈ set, ⟨.symbol byte, id⟩ ∈ nfa.edges source := by
  simp only [move, targetsOnAt, edges, List.mem_flatMap, List.mem_map, List.mem_filter,
    beq_iff_eq]
  apply exists_congr
  intro source
  apply and_congr_right
  intro _
  constructor
  · rintro ⟨⟨_, _⟩, ⟨edgeMem, rfl⟩, rfl⟩
    exact edgeMem
  · intro edgeMem
    exact ⟨_, ⟨edgeMem, rfl⟩, rfl⟩

theorem move_lt {set : List Nat} {byte : UInt8} : ∀ id ∈ nfa.move set byte, id < nfa.size := by
  intro id idMem
  rcases mem_move_iff.mp idMem with ⟨source, _, edgeMem⟩
  exact target_lt_of_mem_edges edgeMem

theorem mem_symbols_iff {set : List Nat} {byte : UInt8} :
    byte ∈ nfa.symbols set ↔ ∃ id, id ∈ nfa.move set byte := by
  simp only [symbols, OrderedSet.mem_toList_ofList, List.mem_filterMap, List.mem_flatMap,
    mem_move_iff]
  constructor
  · rintro ⟨⟨label, target⟩, ⟨source, sourceMem, edgeMem⟩, read⟩
    cases label with
    | epsilon => cases read
    | symbol other =>
        cases read
        exact ⟨target, source, sourceMem, edgeMem⟩
  · rintro ⟨target, source, sourceMem, edgeMem⟩
    exact ⟨_, ⟨source, sourceMem, edgeMem⟩, rfl⟩

/-! ## Inputs -/

/-- The members are the states that the input leads to from the start. -/
def Represents (nfa : Nfa) (set : List Nat) (input : List UInt8) : Prop :=
  ∀ id, id ∈ set ↔ Path nfa.edges nfa.start input id

theorem represents_start (nfa : Nfa) : nfa.Represents (nfa.closure [nfa.start]) [] := by
  intro id
  have seedsLt : ∀ seed ∈ [nfa.start], seed < nfa.size := by
    intro seed seedMem
    rw [List.mem_singleton] at seedMem
    exact seedMem ▸ nfa.start_lt_size
  rw [mem_closure_iff seedsLt]
  simp

theorem Represents.step {set : List Nat} {input : List UInt8}
    (represents : nfa.Represents set input) (byte : UInt8) :
    nfa.Represents (nfa.closure (nfa.move set byte)) (input ++ [byte]) := by
  intro id
  rw [mem_closure_iff move_lt, Path.append_singleton_iff]
  constructor
  · rintro ⟨after, afterMem, rest⟩
    rcases mem_move_iff.mp afterMem with ⟨before, beforeMem, edgeMem⟩
    exact ⟨before, after, (represents before).mp beforeMem, edgeMem, rest⟩
  · rintro ⟨before, after, path, edgeMem, rest⟩
    exact ⟨after, mem_move_iff.mpr ⟨before, (represents before).mpr path, edgeMem⟩, rest⟩

/-- A byte is tried exactly when some state is live behind it. -/
theorem Represents.mem_symbols_iff {set : List Nat} {input : List UInt8}
    (represents : nfa.Represents set input) {byte : UInt8} :
    byte ∈ nfa.symbols set ↔ ∃ id, Path nfa.edges nfa.start (input ++ [byte]) id := by
  rw [Nfa.mem_symbols_iff]
  constructor
  · rintro ⟨after, afterMem⟩
    rcases mem_move_iff.mp afterMem with ⟨before, beforeMem, edgeMem⟩
    exact ⟨after, Path.append_singleton_iff.mpr
      ⟨before, after, (represents before).mp beforeMem, edgeMem, .stay after⟩⟩
  · rintro ⟨last, path⟩
    rcases Path.append_singleton_iff.mp path with ⟨before, after, path, edgeMem, _⟩
    exact ⟨after, mem_move_iff.mpr ⟨before, (represents before).mpr path, edgeMem⟩⟩

end ByteSignature.Nfa
