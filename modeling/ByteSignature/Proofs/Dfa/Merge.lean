import ByteSignature.Proofs.Dfa.Refinement
import ByteSignature.Proofs.Graph.Numbering

/-!
# What merging gives

When no block of a partition can be split, every block becomes a state that is alike the
members of the block.  Merging the partition that refinement ends with gives an automaton
that no input tells from the old one, whose states are all reached and all different.
-/

namespace ByteSignature.Dfa

/-! ## Adding edges -/

/-- Add an edge if its target has a place. -/
def addPlacedEdge (place? : Nat → Option Nat) (state : State) (edge : UInt8 × Nat) : State :=
  match place? edge.2 with
  | none => state
  | some target => state.addEdge edge.1 target

/-- Add the edges whose targets have places. -/
def addPlaced (place? : Nat → Option Nat) (state : State) (edges : List (UInt8 × Nat)) : State :=
  edges.foldl (addPlacedEdge place?) state

section AddPlaced

variable {place? : Nat → Option Nat} {state : State} {edges : List (UInt8 × Nat)}
  {symbol : UInt8} {target : Nat}

theorem accepting_addPlaced (place? : Nat → Option Nat) (state : State)
    (edges : List (UInt8 × Nat)) : (addPlaced place? state edges).accepting = state.accepting := by
  induction edges generalizing state with
  | nil => rfl
  | cons edge edges ih =>
      rw [addPlaced, List.foldl_cons]
      apply (ih _).trans
      unfold addPlacedEdge
      split
      · rfl
      · exact State.accepting_addEdge state _ _

theorem target?_addPlaced_of_eq_some (edges : List (UInt8 × Nat))
    (found : state.target? symbol = some target) :
    (addPlaced place? state edges).target? symbol = some target := by
  induction edges generalizing state with
  | nil => exact found
  | cons edge edges ih =>
      apply ih
      unfold addPlacedEdge
      split
      · exact found
      · by_cases same : symbol = edge.1
        · subst same
          rw [State.target?_addEdge_self, found]
          rfl
        · rw [State.target?_addEdge_of_ne same, found]

/-- Where an edge leads, it was before or was added. -/
theorem eq_some_or_exists_of_addPlaced
    (found : (addPlaced place? state edges).target? symbol = some target) :
    state.target? symbol = some target ∨
      ∃ edge ∈ edges, edge.1 = symbol ∧ place? edge.2 = some target := by
  induction edges generalizing state with
  | nil => exact Or.inl found
  | cons edge edges ih =>
      rcases ih found with before | ⟨later, laterMem, added⟩
      · unfold addPlacedEdge at before
        split at before
        · exact Or.inl before
        · rename_i new placed
          by_cases same : symbol = edge.1
          · subst same
            rw [State.target?_addEdge_self, Option.some.injEq] at before
            cases old : state.target? edge.1 with
            | none =>
                rw [old] at before
                exact Or.inr ⟨edge, List.mem_cons_self, rfl, before ▸ placed⟩
            | some oldTarget =>
                rw [old] at before
                exact Or.inl (congrArg some before)
          · rw [State.target?_addEdge_of_ne same] at before
            exact Or.inl before
      · exact Or.inr ⟨later, List.mem_cons_of_mem _ laterMem, added⟩

/-- A byte with a placed edge gets one. -/
theorem exists_target?_addPlaced {edge : UInt8 × Nat} (edgeMem : edge ∈ edges)
    (placed : place? edge.2 = some target) :
    ∃ next, (addPlaced place? state edges).target? edge.1 = some next := by
  induction edges generalizing state with
  | nil => cases edgeMem
  | cons head edges ih =>
      rcases List.mem_cons.mp edgeMem with rfl | edgeMem
      · have added : (addPlacedEdge place? state edge).target? edge.1 =
            some ((state.target? edge.1).getD target) := by
          simp only [addPlacedEdge, placed, State.target?_addEdge_self]
        exact ⟨_, target?_addPlaced_of_eq_some edges added⟩
      · exact ih edgeMem

end AddPlaced

/-! ## Places of blocks -/

/-- The place of a state's block in the list of blocks. -/
def mergePlace? (partition : Partition) (id : Nat) : Option Nat :=
  (partition.blockOf? id).map fun block =>
    (Std.HashMap.ofList partition.order.zipIdx).getD block 0

/-- The state for a block. -/
def mergedState (dfa : Dfa) (partition : Partition) (block : Nat) : State :=
  addPlaced (mergePlace? partition)
    (.isolated ((partition.members block).head?.any dfa.isAccepting))
    ((partition.members block).flatMap fun id => (dfa.state id).edges)

theorem merge_eq (dfa : Dfa) (partition : Partition) : dfa.merge partition =
    ⟨(partition.order.map (dfa.mergedState partition)).toArray,
      (mergePlace? partition dfa.start).getD 0⟩ :=
  rfl

/-- The state is in the block at the place. -/
def Placed (partition : Partition) (id place : Nat) : Prop :=
  ∃ block, partition.blockOf? id = some block ∧ partition.order[place]? = some block

variable {dfa : Dfa} {partition : Partition}

theorem mergePlace?_eq_some_iff (parts : partition.Parts dfa.order) {id place : Nat} :
    mergePlace? partition id = some place ↔ Placed partition id place := by
  rw [mergePlace?, Option.map_eq_some_iff]
  constructor
  · rintro ⟨block, inBlock, rfl⟩
    have blockMem := (parts.mem_order_iff block).mpr ((parts.blockOf?_iff id block).mp inBlock).1
    rcases List.mem_iff_getElem?.mp blockMem with ⟨place, atPlace⟩
    rw [getD_ofList_zipIdx parts.nodup_order atPlace]
    exact ⟨block, inBlock, atPlace⟩
  · rintro ⟨block, inBlock, atPlace⟩
    exact ⟨block, inBlock, getD_ofList_zipIdx parts.nodup_order atPlace 0⟩

theorem exists_placed (parts : partition.Parts dfa.order) {id : Nat} (idMem : id ∈ dfa.order) :
    ∃ place, Placed partition id place := by
  rcases (parts.mem_all_iff id).mp idMem with ⟨block, inBlock⟩
  have blockMem := (parts.mem_order_iff block).mpr ((parts.blockOf?_iff id block).mp inBlock).1
  rcases List.mem_iff_getElem?.mp blockMem with ⟨place, atPlace⟩
  exact ⟨place, block, inBlock, atPlace⟩

theorem Placed.unique (parts : partition.Parts dfa.order) {id place place2 : Nat}
    (placed : Placed partition id place) (placed2 : Placed partition id place2) :
    place = place2 := by
  rcases placed with ⟨block, inBlock, atPlace⟩
  rcases placed2 with ⟨block2, inBlock2, atPlace2⟩
  rw [inBlock, Option.some.injEq] at inBlock2
  subst inBlock2
  exact index_eq_of_getElem? parts.nodup_order atPlace atPlace2

theorem size_merge (dfa : Dfa) (partition : Partition) :
    (dfa.merge partition).size = partition.order.length := by
  simp [merge_eq, size]

theorem state_merge {block place : Nat} (atPlace : partition.order[place]? = some block) :
    (dfa.merge partition).state place = dfa.mergedState partition block := by
  simp [merge_eq, state, Array.getD_eq_getD_getElem?, atPlace]

/-! ## Alike -/

section Stable

variable (refining : Refining dfa partition) (stable : Stable dfa partition)
  (inRange : dfa.InRange)

include refining

theorem isAccepting_merge {id place : Nat} (placed : Placed partition id place) :
    (dfa.merge partition).isAccepting place = dfa.isAccepting id := by
  rcases placed with ⟨block, inBlock, atPlace⟩
  rcases (refining.parts.blockOf?_iff id block).mp inBlock with ⟨blockLt, idMem⟩
  rw [isAccepting, state_merge atPlace, mergedState, accepting_addPlaced]
  cases members : partition.members block with
  | nil => exact absurd members (refining.parts.nonempty block blockLt)
  | cons first rest =>
      exact refining.accepting block blockLt first (members ▸ List.mem_cons_self) id idMem

include inRange

/-- Edges of a state in a block lead to blocks. -/
theorem exists_targetBlock?_eq_some {id block target : Nat} {symbol : UInt8}
    (inBlock : partition.blockOf? id = some block)
    (edge : dfa.target? id symbol = some target) :
    ∃ next, partition.blockOf? target = some next ∧
      dfa.targetBlock? partition symbol id = some next := by
  have idMem : id ∈ dfa.order := (refining.parts.mem_all_iff id).mpr ⟨block, inBlock⟩
  obtain ⟨next, targetIn⟩ := (refining.parts.mem_all_iff target).mp
    (inRange.target_mem_order idMem edge)
  refine ⟨next, targetIn, ?_⟩
  rw [targetBlock?, edge]
  exact targetIn

include stable

/-- An edge of a merged state is one of every state in its block. -/
theorem exists_target?_of_merge {id place next : Nat} {symbol : UInt8}
    (placed : Placed partition id place)
    (edge : (dfa.merge partition).target? place symbol = some next) :
    ∃ target, dfa.target? id symbol = some target ∧ Placed partition target next := by
  rcases placed with ⟨block, inBlock, atPlace⟩
  rcases (refining.parts.blockOf?_iff id block).mp inBlock with ⟨blockLt, idMem⟩
  rw [Dfa.target?, state_merge atPlace, mergedState] at edge
  rcases eq_some_or_exists_of_addPlaced edge with isolated | ⟨⟨_, target2⟩, edgeMem, rfl, place2⟩
  · cases isolated
  · rcases List.mem_flatMap.mp edgeMem with ⟨id2, id2Mem, edge2⟩
    have edge2 : dfa.target? id2 _ = some target2 := State.target?_eq_some_iff.mpr edge2
    have inBlock2 := (refining.parts.blockOf?_iff id2 block).mpr ⟨blockLt, id2Mem⟩
    obtain ⟨next2, targetIn2, leads2⟩ :=
      exists_targetBlock?_eq_some refining inRange inBlock2 edge2
    rw [stable block blockLt _ id2 id2Mem id idMem] at leads2
    rcases Option.bind_eq_some_iff.mp leads2 with ⟨target, edge, targetIn⟩
    refine ⟨target, edge, next2, targetIn, ?_⟩
    rcases (mergePlace?_eq_some_iff refining.parts).mp place2 with ⟨next3, targetIn3, atNext⟩
    rw [targetIn2, Option.some.injEq] at targetIn3
    rwa [targetIn3]

theorem target?_merge {id place target : Nat} {symbol : UInt8}
    (placed : Placed partition id place) (edge : dfa.target? id symbol = some target) :
    ∃ next, (dfa.merge partition).target? place symbol = some next ∧
      Placed partition target next := by
  rcases placed with ⟨block, inBlock, atPlace⟩
  rcases (refining.parts.blockOf?_iff id block).mp inBlock with ⟨blockLt, idMem⟩
  obtain ⟨targetPlace, targetPlaced⟩ := exists_placed refining.parts
    (inRange.target_mem_order (refining.parts.mem_all_of_mem blockLt idMem) edge)
  have edgeMem : (symbol, target) ∈
      (partition.members block).flatMap fun id => (dfa.state id).edges :=
    List.mem_flatMap.mpr ⟨id, idMem, State.target?_eq_some_iff.mp edge⟩
  obtain ⟨next, mergedEdge⟩ := exists_target?_addPlaced edgeMem
    ((mergePlace?_eq_some_iff refining.parts).mpr targetPlaced)
  have mergedEdge : (dfa.merge partition).target? place symbol = some next := by
    rw [Dfa.target?, state_merge atPlace]
    exact mergedEdge
  obtain ⟨target2, edge2, placed2⟩ :=
    exists_target?_of_merge refining stable inRange ⟨block, inBlock, atPlace⟩ mergedEdge
  rw [edge, Option.some.injEq] at edge2
  exact ⟨next, mergedEdge, edge2 ▸ placed2⟩

/-- A merged state is alike the states in its block. -/
theorem alike_merge {id place : Nat} (placed : Placed partition id place) :
    Alike dfa (dfa.merge partition) id place := by
  apply alike_of_bisimulation (R := Placed partition) _ _ placed
  · intro id place placed
    exact (isAccepting_merge refining placed).symm
  · intro id place placed symbol
    cases edge : dfa.target? id symbol with
    | none =>
        cases mergedEdge : (dfa.merge partition).target? place symbol with
        | none => exact .none
        | some next =>
            obtain ⟨target, edge2, _⟩ :=
              exists_target?_of_merge refining stable inRange placed mergedEdge
            rw [edge] at edge2
            cases edge2
    | some target =>
        obtain ⟨next, mergedEdge, targetPlaced⟩ :=
          target?_merge refining stable inRange placed edge
        rw [mergedEdge]
        exact .some targetPlaced

theorem walkFrom_merge {id place target : Nat} {input : List UInt8}
    (placed : Placed partition id place) (walk : dfa.walkFrom id input = some target) :
    ∃ next, (dfa.merge partition).walkFrom place input = some next ∧
      Placed partition target next := by
  induction input generalizing id place with
  | nil =>
      cases walk
      exact ⟨place, rfl, placed⟩
  | cons symbol rest ih =>
      rw [walkFrom_cons] at walk
      rcases Option.bind_eq_some_iff.mp walk with ⟨middle, edge, restWalk⟩
      obtain ⟨next, mergedEdge, middlePlaced⟩ := target?_merge refining stable inRange placed edge
      rw [walkFrom_cons, mergedEdge]
      exact ih middlePlaced restWalk

end Stable

/-! ## Minimization -/

/-- The second automaton is the smallest that no input tells from the first: it has no
state that is not reached, and no two that are alike. -/
structure Minimizes (dfa minimal : Dfa) : Prop where
  inRange : minimal.InRange
  alike : Alike dfa minimal dfa.start minimal.start
  reached : ∀ id < minimal.size, ∃ input, minimal.walkFrom minimal.start input = some id
  separated : ∀ id < minimal.size, ∀ id2 < minimal.size, Alike minimal minimal id id2 → id = id2
  size_le : minimal.size ≤ dfa.order.length

theorem minimizes_merge (refining : Refining dfa partition) (stable : Stable dfa partition)
    (inRange : dfa.InRange) : Minimizes dfa (dfa.merge partition) := by
  have parts := refining.parts
  obtain ⟨startPlace, startPlaced⟩ := exists_placed parts inRange.start_mem_order
  have startEq : (dfa.merge partition).start = startPlace := by
    rw [merge_eq]
    simp only [(mergePlace?_eq_some_iff parts).mpr startPlaced, Option.getD_some]
  have place_lt {id place : Nat} (placed : Placed partition id place) :
      place < (dfa.merge partition).size := by
    rcases placed with ⟨block, _, atPlace⟩
    rw [size_merge]
    exact (List.getElem?_eq_some_iff.mp atPlace).1
  have exists_member {place : Nat} (placeLt : place < (dfa.merge partition).size) :
      ∃ id ∈ dfa.order, Placed partition id place := by
    rw [size_merge] at placeLt
    have atPlace : partition.order[place]? = some partition.order[place] :=
      List.getElem?_eq_getElem placeLt
    have blockLt := (parts.mem_order_iff _).mp (List.getElem_mem placeLt)
    obtain ⟨id, idMem⟩ := parts.exists_mem blockLt
    exact ⟨id, parts.mem_all_of_mem blockLt idMem, _, (parts.blockOf?_iff _ _).mpr
      ⟨blockLt, idMem⟩, atPlace⟩
  exact {
    inRange := by
      constructor
      · exact startEq ▸ place_lt startPlaced
      · intro place symbol next edge
        by_cases placeLt : place < (dfa.merge partition).size
        · obtain ⟨id, _, placed⟩ := exists_member placeLt
          obtain ⟨target, _, targetPlaced⟩ :=
            exists_target?_of_merge refining stable inRange placed edge
          exact place_lt targetPlaced
        · rw [target?_of_le (Nat.not_lt.mp placeLt)] at edge
          cases edge
    alike := startEq ▸ alike_merge refining stable inRange startPlaced
    reached := by
      intro place placeLt
      obtain ⟨id, idMem, placed⟩ := exists_member placeLt
      rcases inRange.mem_order_iff.mp idMem with ⟨input, walk⟩
      obtain ⟨next, mergedWalk, nextPlaced⟩ :=
        walkFrom_merge refining stable inRange startPlaced walk
      exact ⟨input, startEq ▸ nextPlaced.unique parts placed ▸ mergedWalk⟩
    separated := by
      intro place placeLt place2 place2Lt alike
      obtain ⟨id, idMem, placed⟩ := exists_member placeLt
      obtain ⟨id2, id2Mem, placed2⟩ := exists_member place2Lt
      have memberAlike : Alike dfa dfa id id2 :=
        ((alike_merge refining stable inRange placed).trans alike).trans
          (alike_merge refining stable inRange placed2).symm
      have together := refining.coarse id idMem id2 id2Mem memberAlike
      rcases placed with ⟨block, inBlock, atPlace⟩
      exact Placed.unique parts ⟨block, together ▸ inBlock, atPlace⟩ placed2
    size_le := by
      rw [size_merge]
      have onlyBlocks := Graph.length_le_of_forall_lt parts.nodup_order
        fun block blockMem => (parts.mem_order_iff block).mp blockMem
      exact Nat.le_trans onlyBlocks parts.size_le }

/-- Minimizing gives the smallest automaton that no input tells from the old one. -/
theorem minimizes_minimize (inRange : dfa.InRange) : Minimizes dfa dfa.minimize := by
  have nonempty : dfa.size ≠ 0 := Nat.pos_iff_ne_zero.mp (Nat.zero_lt_of_lt inRange.start_lt)
  obtain ⟨refining, stable⟩ := refining_finalPartition inRange
  rw [minimize, if_neg nonempty]
  exact minimizes_merge refining stable inRange

end ByteSignature.Dfa
