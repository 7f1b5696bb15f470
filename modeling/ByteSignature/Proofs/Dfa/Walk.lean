import ByteSignature.Dfa.Order
import ByteSignature.Proofs.Graph.Association
import ByteSignature.Proofs.Graph.Discovery

/-!
# Walks of a deterministic automaton

What can be told about a state from outside is where walks from it get stuck and whether
inputs may end where they lead.  States that agree on all of this are alike.
-/

namespace ByteSignature.Dfa

/-! ## Edges -/

namespace State

theorem target?_eq_some_iff {state : State} {symbol : UInt8} {target : Nat} :
    state.target? symbol = some target ↔ (symbol, target) ∈ state.edges :=
  lookup_eq_some_iff_mem state.nodup_symbols

theorem target?_addEdge_self (state : State) (symbol : UInt8) (target : Nat) :
    (state.addEdge symbol target).target? symbol =
      some ((state.target? symbol).getD target) := by
  unfold addEdge
  split
  · rename_i taken
    rcases Option.isSome_iff_exists.mp (lookup_isSome_iff_mem_map.mpr taken) with ⟨old, found⟩
    rw [target?, found]
    rfl
  · rename_i free
    have missing : state.edges.lookup symbol = none := by
      rw [← Option.not_isSome_iff_eq_none, lookup_isSome_iff_mem_map]
      exact free
    simp [target?, List.lookup_append, missing]

theorem target?_addEdge_of_ne {state : State} {symbol other : UInt8} (ne : other ≠ symbol)
    (target : Nat) : (state.addEdge symbol target).target? other = state.target? other := by
  unfold addEdge
  split
  · rfl
  · have different : (other == symbol) = false := by simpa using ne
    rw [target?, target?, List.lookup_append, List.lookup_cons, different]
    exact Option.or_none

end State

variable {dfa dfa2 : Dfa}

theorem state_of_le {id : Nat} (le : dfa.size ≤ id) : dfa.state id = .isolated false := by
  rw [state, Array.getD_eq_getD_getElem?, Array.getElem?_eq_none le]
  rfl

theorem target?_of_le {id : Nat} (le : dfa.size ≤ id) (symbol : UInt8) :
    dfa.target? id symbol = none := by
  rw [target?, state_of_le le]
  rfl

theorem state_addState_of_lt {id : Nat} (lt : id < dfa.size) (accepting : Bool) :
    (dfa.addState accepting).state id = dfa.state id := by
  have ne : id ≠ dfa.states.size := Nat.ne_of_lt lt
  simp [state, addState, Array.getD_eq_getD_getElem?, Array.getElem?_push, ne]

theorem state_addState_self (dfa : Dfa) (accepting : Bool) :
    (dfa.addState accepting).state dfa.size = .isolated accepting := by
  simp [state, addState, Array.getD_eq_getD_getElem?, size]

theorem target?_addState (dfa : Dfa) (accepting : Bool) (id : Nat) (symbol : UInt8) :
    (dfa.addState accepting).target? id symbol = dfa.target? id symbol := by
  by_cases lt : id < dfa.size
  · rw [target?, target?, state_addState_of_lt lt]
  · rw [target?_of_le (Nat.not_lt.mp lt)]
    by_cases isNew : id = dfa.size
    · rw [target?, isNew, state_addState_self]
      rfl
    · apply target?_of_le
      rw [size_addState]
      omega

theorem state_addEdge_self {id : Nat} (lt : id < dfa.size) (symbol : UInt8) (target : Nat) :
    (dfa.addEdge id symbol target).state id = (dfa.state id).addEdge symbol target := by
  have inside : id < dfa.states.size := lt
  simp [state, addEdge, Array.getElem_modify, inside]

theorem state_addEdge_of_ne {id other : Nat} (ne : other ≠ id) (symbol : UInt8) (target : Nat) :
    (dfa.addEdge id symbol target).state other = dfa.state other := by
  simp [state, addEdge, Array.getD_eq_getD_getElem?, Array.getElem?_modify, ne.symm]

theorem isAccepting_addEdge (dfa : Dfa) (id : Nat) (symbol : UInt8) (target other : Nat) :
    (dfa.addEdge id symbol target).isAccepting other = dfa.isAccepting other := by
  by_cases isSource : other = id
  · subst isSource
    by_cases lt : other < dfa.size
    · rw [isAccepting, state_addEdge_self lt, State.accepting_addEdge]
      rfl
    · have le := Nat.not_lt.mp lt
      rw [isAccepting, isAccepting, state_of_le le, state_of_le (by rwa [size_addEdge])]
  · rw [isAccepting, state_addEdge_of_ne isSource]
    rfl

/-! ## Walks -/

theorem walkFrom_cons (dfa : Dfa) (id : Nat) (symbol : UInt8) (rest : List UInt8) :
    dfa.walkFrom id (symbol :: rest) =
      (dfa.target? id symbol).bind fun next => dfa.walkFrom next rest := by
  rw [walkFrom]
  cases dfa.target? id symbol <;> rfl

theorem walkFrom_append_singleton (dfa : Dfa) (id : Nat) (first : List UInt8) (symbol : UInt8) :
    dfa.walkFrom id (first ++ [symbol]) =
      (dfa.walkFrom id first).bind fun next => dfa.target? next symbol := by
  rw [walkFrom_append]
  apply congrArg
  funext next
  rw [walkFrom_cons]
  cases dfa.target? next symbol <;> rfl

/-- Walks survive whatever keeps the edges. -/
theorem walkFrom_eq_some_of_le
    (keeps : ∀ id symbol target, dfa.target? id symbol = some target →
      dfa2.target? id symbol = some target)
    {id target : Nat} {input : List UInt8} (walk : dfa.walkFrom id input = some target) :
    dfa2.walkFrom id input = some target := by
  induction input generalizing id with
  | nil => exact walk
  | cons symbol rest ih =>
      rw [walkFrom_cons] at walk ⊢
      rcases Option.bind_eq_some_iff.mp walk with ⟨next, edge, restWalk⟩
      rw [keeps id symbol next edge]
      exact ih restWalk

/-- A walk stays among states whose edges lead nowhere else. -/
theorem walkFrom_mem_of_closed {ids : List Nat}
    (closed : ∀ id ∈ ids, ∀ edge ∈ (dfa.state id).edges, edge.2 ∈ ids) {id target : Nat}
    {input : List UInt8} (idMem : id ∈ ids) (walk : dfa.walkFrom id input = some target) :
    target ∈ ids := by
  induction input generalizing id with
  | nil =>
      cases walk
      exact idMem
  | cons symbol rest ih =>
      rw [walkFrom_cons] at walk
      rcases Option.bind_eq_some_iff.mp walk with ⟨next, edge, restWalk⟩
      exact ih (closed id idMem _ (State.target?_eq_some_iff.mp edge)) restWalk

/-- The start and all targets belong to states. -/
structure InRange (dfa : Dfa) : Prop where
  start_lt : dfa.start < dfa.size
  target_lt : ∀ {id symbol target}, dfa.target? id symbol = some target → target < dfa.size

theorem walk_eq_walkFrom (inRange : dfa.InRange) (input : List UInt8) :
    dfa.walk input = dfa.walkFrom dfa.start input := by
  rw [walk, if_neg]
  exact Nat.pos_iff_ne_zero.mp (Nat.zero_lt_of_lt inRange.start_lt)

theorem InRange.walkFrom_lt (inRange : dfa.InRange) {id target : Nat} {input : List UInt8}
    (idLt : id < dfa.size) (walk : dfa.walkFrom id input = some target) :
    target < dfa.size := by
  induction input generalizing id with
  | nil =>
      cases walk
      exact idLt
  | cons symbol rest ih =>
      rw [walkFrom_cons] at walk
      rcases Option.bind_eq_some_iff.mp walk with ⟨next, edge, restWalk⟩
      exact ih (inRange.target_lt edge) restWalk

/-! ## The canonical order -/

theorem mem_sortedTargets_iff {id target : Nat} :
    target ∈ dfa.sortedTargets id ↔ ∃ symbol, dfa.target? id symbol = some target := by
  simp only [sortedTargets, State.sortedEdges, List.mem_map, List.mem_mergeSort, target?,
    State.target?_eq_some_iff]
  constructor
  · rintro ⟨⟨symbol, _⟩, edgeMem, rfl⟩
    exact ⟨symbol, edgeMem⟩
  · rintro ⟨symbol, edgeMem⟩
    exact ⟨(symbol, target), edgeMem, rfl⟩

theorem InRange.bounded (inRange : dfa.InRange) :
    Graph.Bounded dfa.sortedTargets dfa.size := by
  intro id _ target targetMem
  rcases mem_sortedTargets_iff.mp targetMem with ⟨symbol, edge⟩
  exact inRange.target_lt edge

theorem reaches_sortedTargets_iff {source target : Nat} :
    Graph.Reaches dfa.sortedTargets source target ↔
      ∃ input, dfa.walkFrom source input = some target := by
  constructor
  · intro reaches
    induction reaches with
    | refl => exact ⟨[], rfl⟩
    | tail _ last ih =>
        rcases ih with ⟨input, walk⟩
        rcases mem_sortedTargets_iff.mp last with ⟨symbol, edge⟩
        refine ⟨input ++ [symbol], ?_⟩
        rw [walkFrom_append_singleton, walk]
        exact edge
  · rintro ⟨input, walk⟩
    induction input generalizing source with
    | nil =>
        cases walk
        exact .refl
    | cons symbol rest ih =>
        rw [walkFrom_cons] at walk
        rcases Option.bind_eq_some_iff.mp walk with ⟨next, edge, restWalk⟩
        exact .head (mem_sortedTargets_iff.mpr ⟨symbol, edge⟩) (ih restWalk)

theorem InRange.order_eq (inRange : dfa.InRange) :
    dfa.order = Graph.discover dfa.sortedTargets dfa.size [dfa.start] := by
  rw [order, if_neg]
  exact Nat.pos_iff_ne_zero.mp (Nat.zero_lt_of_lt inRange.start_lt)

/-- The canonical order lists the states that walks from the start lead to. -/
theorem InRange.mem_order_iff (inRange : dfa.InRange) {id : Nat} :
    id ∈ dfa.order ↔ ∃ input, dfa.walkFrom dfa.start input = some id := by
  have seedsLt : ∀ seed ∈ [dfa.start], seed < dfa.size := by
    simpa using inRange.start_lt
  rw [inRange.order_eq, Graph.mem_discover_iff inRange.bounded seedsLt]
  simp only [List.mem_singleton, exists_eq_left, reaches_sortedTargets_iff]

theorem InRange.start_mem_order (inRange : dfa.InRange) : dfa.start ∈ dfa.order :=
  inRange.mem_order_iff.mpr ⟨[], rfl⟩

theorem InRange.lt_of_mem_order (inRange : dfa.InRange) {id : Nat} (idMem : id ∈ dfa.order) :
    id < dfa.size := by
  rcases inRange.mem_order_iff.mp idMem with ⟨input, walk⟩
  exact inRange.walkFrom_lt inRange.start_lt walk

theorem InRange.target_mem_order (inRange : dfa.InRange) {id target : Nat} {symbol : UInt8}
    (idMem : id ∈ dfa.order) (edge : dfa.target? id symbol = some target) :
    target ∈ dfa.order := by
  rcases inRange.mem_order_iff.mp idMem with ⟨input, walk⟩
  refine inRange.mem_order_iff.mpr ⟨input ++ [symbol], ?_⟩
  rw [walkFrom_append_singleton, walk]
  exact edge

theorem InRange.length_order_le (inRange : dfa.InRange) : dfa.order.length ≤ dfa.size :=
  Graph.length_le_of_forall_lt dfa.nodup_order fun _ => inRange.lt_of_mem_order

/-! ## Behaviour -/

/-- Whether inputs may end where some bytes lead from a state; nothing where they lead
nowhere. -/
def answer? (dfa : Dfa) (id : Nat) (input : List UInt8) : Option Bool :=
  (dfa.walkFrom id input).map dfa.isAccepting

/-- No input tells the two states apart. -/
def Alike (dfa dfa2 : Dfa) (id id2 : Nat) : Prop :=
  ∀ input, dfa.answer? id input = dfa2.answer? id2 input

theorem answer?_nil (dfa : Dfa) (id : Nat) : dfa.answer? id [] = some (dfa.isAccepting id) :=
  rfl

theorem answer?_cons (dfa : Dfa) (id : Nat) (symbol : UInt8) (rest : List UInt8) :
    dfa.answer? id (symbol :: rest) =
      (dfa.target? id symbol).bind fun next => dfa.answer? next rest := by
  rw [answer?, walkFrom_cons, Option.map_bind]
  rfl

theorem answer?_append {id next : Nat} {first : List UInt8}
    (walk : dfa.walkFrom id first = some next) (second : List UInt8) :
    dfa.answer? id (first ++ second) = dfa.answer? next second := by
  rw [answer?, walkFrom_append, walk]
  rfl

namespace Alike

variable {id id2 id3 : Nat}

theorem symm (alike : Alike dfa dfa2 id id2) : Alike dfa2 dfa id2 id :=
  fun input => (alike input).symm

theorem trans {dfa3 : Dfa} (first : Alike dfa dfa2 id id2) (second : Alike dfa2 dfa3 id2 id3) :
    Alike dfa dfa3 id id3 :=
  fun input => (first input).trans (second input)

theorem isAccepting_eq (alike : Alike dfa dfa2 id id2) :
    dfa.isAccepting id = dfa2.isAccepting id2 :=
  Option.some.inj (alike [])

/-- States that are alike have edges for the same bytes. -/
theorem isSome_target?_eq (alike : Alike dfa dfa2 id id2) (symbol : UInt8) :
    (dfa.target? id symbol).isSome = (dfa2.target? id2 symbol).isSome := by
  have agree := alike [symbol]
  rw [answer?_cons, answer?_cons] at agree
  cases edge : dfa.target? id symbol <;> cases edge2 : dfa2.target? id2 symbol <;>
    simp_all [answer?_nil]

/-- Their edges for a byte lead to states that are alike. -/
theorem target? (alike : Alike dfa dfa2 id id2) {symbol : UInt8} {next next2 : Nat}
    (edge : dfa.target? id symbol = some next) (edge2 : dfa2.target? id2 symbol = some next2) :
    Alike dfa dfa2 next next2 := by
  intro input
  have agree := alike (symbol :: input)
  rwa [answer?_cons, answer?_cons, edge, edge2] at agree

theorem exists_target? (alike : Alike dfa dfa2 id id2) {symbol : UInt8} {next : Nat}
    (edge : dfa.target? id symbol = some next) :
    ∃ next2, dfa2.target? id2 symbol = some next2 ∧ Alike dfa dfa2 next next2 := by
  have present := alike.isSome_target?_eq symbol
  rw [edge, Option.isSome_some, eq_comm, Option.isSome_iff_exists] at present
  rcases present with ⟨next2, edge2⟩
  exact ⟨next2, edge2, alike.target? edge edge2⟩

end Alike

/-- A relation between states that edges preserve relates states that are alike. -/
theorem alike_of_bisimulation {R : Nat → Nat → Prop}
    (accepting : ∀ {id id2}, R id id2 → dfa.isAccepting id = dfa2.isAccepting id2)
    (edges : ∀ {id id2}, R id id2 → ∀ symbol,
      Option.Rel R (dfa.target? id symbol) (dfa2.target? id2 symbol))
    {id id2 : Nat} (related : R id id2) : Alike dfa dfa2 id id2 := by
  intro input
  induction input generalizing id id2 with
  | nil => exact congrArg some (accepting related)
  | cons symbol rest ih =>
      rw [answer?_cons, answer?_cons]
      have targets := edges related symbol
      generalize dfa.target? id symbol = edge at targets
      generalize dfa2.target? id2 symbol = edge2 at targets
      cases targets with
      | none => rfl
      | some nextRelated => exact ih nextRelated

end ByteSignature.Dfa
