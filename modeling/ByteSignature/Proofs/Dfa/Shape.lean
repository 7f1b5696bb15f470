import ByteSignature.Proofs.Dfa.Walk
import ByteSignature.Proofs.Graph.Numbering

/-!
# Descriptions and behaviour

Descriptions are equal exactly when the reachable states of two automata can be matched, because
breadth-first order depends on nothing but the bytes of the edges.  So automata with equal
descriptions answer every input alike.  Conversely, where no two reachable states of either
automaton are alike, answering alike is such a matching.
-/

namespace ByteSignature.Dfa

variable {dfa dfa2 : Dfa}

/-! ## Edges by ascending byte -/

theorem mem_sortedEdges_iff {id target : Nat} {symbol : UInt8} :
    (symbol, target) ∈ (dfa.state id).sortedEdges ↔ dfa.target? id symbol = some target := by
  rw [State.sortedEdges, List.mem_mergeSort, Dfa.target?, State.target?_eq_some_iff]

theorem State.nodup_sortedEdges (state : State) : (state.sortedEdges.map Prod.fst).Nodup :=
  ((List.mergeSort_perm _ _).map Prod.fst).nodup_iff.mpr state.nodup_symbols

theorem State.pairwise_sortedEdges (state : State) :
    (state.sortedEdges.map Prod.fst).Pairwise (· ≤ ·) := by
  have sorted : state.sortedEdges.Pairwise fun first second =>
      decide (first.1 ≤ second.1) = true := by
    apply List.pairwise_mergeSort
    · intro first second third
      simp only [decide_eq_true_eq]
      exact UInt8.le_trans
    · intro first second
      simpa using UInt8.le_total first.1 second.1
  rw [List.pairwise_map]
  apply sorted.imp
  intro first second le
  exact of_decide_eq_true le

/-- States with edges for the same bytes have them in the same order. -/
theorem map_fst_sortedEdges_eq {id id2 : Nat}
    (same : ∀ symbol, (dfa.target? id symbol).isSome = (dfa2.target? id2 symbol).isSome) :
    (dfa.state id).sortedEdges.map Prod.fst = (dfa2.state id2).sortedEdges.map Prod.fst := by
  have mem_iff (dfa : Dfa) (id : Nat) (symbol : UInt8) :
      symbol ∈ (dfa.state id).sortedEdges.map Prod.fst ↔ (dfa.target? id symbol).isSome := by
    rw [Option.isSome_iff_exists, List.mem_map]
    constructor
    · rintro ⟨⟨_, target⟩, edgeMem, rfl⟩
      exact ⟨target, mem_sortedEdges_iff.mp edgeMem⟩
    · rintro ⟨target, edge⟩
      exact ⟨(symbol, target), mem_sortedEdges_iff.mpr edge, rfl⟩
  have perm : ((dfa.state id).sortedEdges.map Prod.fst).Perm
      ((dfa2.state id2).sortedEdges.map Prod.fst) := by
    rw [List.perm_ext_iff_of_nodup (State.nodup_sortedEdges _) (State.nodup_sortedEdges _)]
    intro symbol
    rw [mem_iff, mem_iff, same]
  exact perm.eq_of_pairwise (fun _ _ _ _ => UInt8.le_antisymm)
    (State.pairwise_sortedEdges _) (State.pairwise_sortedEdges _)

/-- Lists of pairs with the same keys in the same order correspond as their values do. -/
theorem forall₂_of_map_fst_eq {R : Nat → Nat → Prop} {edges edges2 : List (UInt8 × Nat)}
    (keys : edges.map Prod.fst = edges2.map Prod.fst)
    (values : ∀ {symbol target target2}, (symbol, target) ∈ edges → (symbol, target2) ∈ edges2 →
      R target target2) :
    List.Forall₂ (fun edge edge2 => edge.1 = edge2.1 ∧ R edge.2 edge2.2) edges edges2 := by
  induction edges generalizing edges2 with
  | nil =>
      rw [List.map_nil, eq_comm, List.map_eq_nil_iff] at keys
      subst keys
      exact .nil
  | cons edge edges ih =>
      cases edges2 with
      | nil => cases keys
      | cons edge2 edges2 =>
          rw [List.map_cons, List.map_cons, List.cons.injEq] at keys
          rcases edge with ⟨symbol, target⟩
          rcases edge2 with ⟨symbol2, target2⟩
          rcases keys with ⟨rfl, keys⟩
          apply List.Forall₂.cons
          · exact ⟨rfl, values List.mem_cons_self List.mem_cons_self⟩
          · exact ih keys fun edgeMem edgeMem2 =>
              values (List.mem_cons_of_mem _ edgeMem) (List.mem_cons_of_mem _ edgeMem2)

/-! ## Places -/

theorem getD_places {id place : Nat} (atPlace : dfa.order[place]? = some id) :
    dfa.places.getD id 0 = place :=
  getD_ofList_zipIdx dfa.nodup_order atPlace 0

theorem getD_places_lt (nonempty : dfa.order ≠ []) (id : Nat) :
    dfa.places.getD id 0 < dfa.order.length := by
  rw [places, Std.HashMap.getD_eq_getD_getElem?]
  cases found : (Std.HashMap.ofList dfa.order.zipIdx)[id]? with
  | none => exact List.length_pos_iff.mpr nonempty
  | some place =>
      have atPlace := (getElem?_ofList_zipIdx dfa.nodup_order id place).mp found
      exact (List.getElem?_eq_some_iff.mp atPlace).1

theorem order_eq_of_ne_nil (nonempty : dfa.order ≠ []) :
    dfa.order = Graph.discover dfa.sortedTargets dfa.size [dfa.start] := by
  unfold order at nonempty ⊢
  split at nonempty
  · exact absurd rfl nonempty
  · rename_i hasStates
    rw [if_neg hasStates]

theorem getElem?_order_zero (nonempty : dfa.order ≠ []) : dfa.order[0]? = some dfa.start := by
  rw [← List.head?_eq_getElem?, order_eq_of_ne_nil nonempty]
  exact Graph.head?_discover dfa.size dfa.start

theorem InRange.getElem?_order_zero (inRange : dfa.InRange) :
    dfa.order[0]? = some dfa.start :=
  Dfa.getElem?_order_zero (List.ne_nil_of_mem inRange.start_mem_order)

/-- Every place but the first is that of a target. -/
theorem exists_target?_of_getElem?_order {id place : Nat}
    (atPlace : dfa.order[place]? = some id) (pos : 0 < place) :
    ∃ source ∈ dfa.order, ∃ symbol, dfa.target? source symbol = some id := by
  have idMem := List.mem_of_getElem? atPlace
  have nonempty := List.ne_nil_of_mem idMem
  rw [order_eq_of_ne_nil nonempty] at idMem
  rcases Graph.mem_or_exists_source_of_mem_discover idMem with isStart | ⟨source, sourceMem, leads⟩
  · rw [List.mem_singleton.mp isStart] at atPlace
    have isFirst := index_eq_of_getElem? dfa.nodup_order atPlace (getElem?_order_zero nonempty)
    exact absurd isFirst (Nat.ne_of_gt pos)
  · rw [← order_eq_of_ne_nil nonempty] at sourceMem
    exact ⟨source, sourceMem, mem_sortedTargets_iff.mp leads⟩

/-! ## Equal descriptions -/

/-- The states have the same place. -/
def SamePlace (dfa dfa2 : Dfa) (id id2 : Nat) : Prop :=
  ∃ place : Nat, dfa.order[place]? = some id ∧ dfa2.order[place]? = some id2

theorem getElem?_shape {id place : Nat} (atPlace : dfa.order[place]? = some id) :
    dfa.shape[place]? = some {
      accepting := dfa.isAccepting id
      edges := (dfa.state id).sortedEdges.map fun edge => (edge.1, dfa.places.getD edge.2 0) } := by
  rw [shape, List.getElem?_map, atPlace]
  rfl

/-- With equal descriptions, an edge leads to the same place in both automata. -/
theorem SamePlace.exists_target? (inRange : dfa.InRange) (inRange2 : dfa2.InRange)
    (shape_eq : dfa.shape = dfa2.shape) {id id2 target : Nat} {symbol : UInt8}
    (same : SamePlace dfa dfa2 id id2) (edge : dfa.target? id symbol = some target) :
    ∃ target2, dfa2.target? id2 symbol = some target2 ∧ SamePlace dfa dfa2 target target2 := by
  rcases same with ⟨place, atPlace, atPlace2⟩
  have described := getElem?_shape atPlace
  rw [shape_eq, getElem?_shape atPlace2, Option.some.injEq, ShapeState.mk.injEq] at described
  obtain ⟨next, atNext⟩ := List.mem_iff_getElem?.mp
    (inRange.target_mem_order (List.mem_of_getElem? atPlace) edge)
  have edgeMem : (symbol, next) ∈
      (dfa2.state id2).sortedEdges.map fun edge => (edge.1, dfa2.places.getD edge.2 0) := by
    rw [described.2]
    exact List.mem_map.mpr ⟨(symbol, target), mem_sortedEdges_iff.mpr edge, by
      rw [getD_places atNext]⟩
  rcases List.mem_map.mp edgeMem with ⟨⟨symbol2, target2⟩, edgeMem2, eq⟩
  rw [Prod.mk.injEq] at eq
  rcases eq with ⟨rfl, placeEq⟩
  have edge2 := mem_sortedEdges_iff.mp edgeMem2
  obtain ⟨next2, atNext2⟩ := List.mem_iff_getElem?.mp
    (inRange2.target_mem_order (List.mem_of_getElem? atPlace2) edge2)
  rw [getD_places atNext2] at placeEq
  exact ⟨target2, edge2, next, atNext, placeEq ▸ atNext2⟩

theorem SamePlace.symm {id id2 : Nat} (same : SamePlace dfa dfa2 id id2) :
    SamePlace dfa2 dfa id2 id :=
  same.imp fun _ places => places.symm

theorem SamePlace.getD_places_eq {id id2 : Nat} (same : SamePlace dfa dfa2 id id2) :
    dfa.places.getD id 0 = dfa2.places.getD id2 0 := by
  rcases same with ⟨place, atPlace, atPlace2⟩
  rw [getD_places atPlace, getD_places atPlace2]

theorem biUnique_samePlace : Relator.BiUnique (SamePlace dfa dfa2) := by
  constructor
  · rintro id other id2 ⟨place, atPlace, atPlace2⟩ ⟨otherPlace, otherAt, otherAt2⟩
    obtain rfl := index_eq_of_getElem? dfa2.nodup_order atPlace2 otherAt2
    exact Option.some.inj (atPlace.symm.trans otherAt)
  · rintro id id2 other ⟨place, atPlace, atPlace2⟩ ⟨otherPlace, otherAt, otherAt2⟩
    obtain rfl := index_eq_of_getElem? dfa.nodup_order atPlace otherAt
    exact Option.some.inj (atPlace2.symm.trans otherAt2)

/-! ## Matchings -/

/-- A relation that pairs reachable states one to one, the starts with each other, in a way that
respects all edges and whether inputs may end. -/
structure Matching (dfa dfa2 : Dfa) (R : Nat → Nat → Prop) : Prop where
  unique : Relator.BiUnique R
  mem_order : ∀ {id id2}, R id id2 → id ∈ dfa.order
  start : R dfa.start dfa2.start
  isAccepting_eq : ∀ {id id2}, R id id2 → dfa.isAccepting id = dfa2.isAccepting id2
  edges : ∀ {id id2}, R id id2 → ∀ symbol,
    Option.Rel R (dfa.target? id symbol) (dfa2.target? id2 symbol)

/-- Equal descriptions match the states that have the same place. -/
theorem matching_of_shape_eq (inRange : dfa.InRange) (inRange2 : dfa2.InRange)
    (shape_eq : dfa.shape = dfa2.shape) : Matching dfa dfa2 (SamePlace dfa dfa2) := by
  constructor
  case unique => exact biUnique_samePlace
  case mem_order =>
      rintro id id2 ⟨place, atPlace, _⟩
      exact List.mem_of_getElem? atPlace
  case start => exact ⟨0, inRange.getElem?_order_zero, inRange2.getElem?_order_zero⟩
  case isAccepting_eq =>
      rintro id id2 ⟨place, atPlace, atPlace2⟩
      have described := getElem?_shape atPlace
      rw [shape_eq, getElem?_shape atPlace2, Option.some.injEq, ShapeState.mk.injEq] at described
      exact described.1.symm
  case edges =>
      intro id id2 same symbol
      cases edge : dfa.target? id symbol with
      | none =>
          cases edge2 : dfa2.target? id2 symbol with
          | none => exact .none
          | some target2 =>
              obtain ⟨target, edge', _⟩ :=
                same.symm.exists_target? inRange2 inRange shape_eq.symm edge2
              rw [edge] at edge'
              cases edge'
      | some target =>
          obtain ⟨target2, edge2, sameTarget⟩ :=
            same.exists_target? inRange inRange2 shape_eq edge
          rw [edge2]
          exact .some sameTarget

namespace Matching

variable {R : Nat → Nat → Prop}

theorem alike (matching : Matching dfa dfa2 R) : Alike dfa dfa2 dfa.start dfa2.start :=
  alike_of_bisimulation matching.isAccepting_eq matching.edges matching.start

/-- The edges of paired states are paired, in order. -/
theorem forall₂_sortedEdges (matching : Matching dfa dfa2 R) {id id2 : Nat}
    (related : R id id2) :
    List.Forall₂ (fun edge edge2 => edge.1 = edge2.1 ∧ R edge.2 edge2.2)
      (dfa.state id).sortedEdges (dfa2.state id2).sortedEdges := by
  have edges := matching.edges related
  apply forall₂_of_map_fst_eq
  · apply map_fst_sortedEdges_eq
    intro symbol
    have targets := edges symbol
    generalize dfa.target? id symbol = edge at targets
    generalize dfa2.target? id2 symbol = edge2 at targets
    cases targets <;> rfl
  · intro symbol target target2 edgeMem edgeMem2
    have targets := edges symbol
    rw [mem_sortedEdges_iff.mp edgeMem, mem_sortedEdges_iff.mp edgeMem2] at targets
    cases targets with
    | some related => exact related

/-- The canonical orders pair the states. -/
theorem forall₂_order (matching : Matching dfa dfa2 R) (inRange : dfa.InRange)
    (inRange2 : dfa2.InRange) : List.Forall₂ R dfa.order dfa2.order := by
  rw [inRange.order_eq, inRange2.order_eq]
  apply Graph.forall₂_discover matching.unique _ matching.start inRange.bounded inRange.start_lt
    inRange2.bounded inRange2.start_lt
  intro id id2 related
  rw [sortedTargets, sortedTargets, List.forall₂_map_left_iff, List.forall₂_map_right_iff]
  exact (matching.forall₂_sortedEdges related).imp fun _ _ edges => edges.2

/-- Paired states have the same place. -/
theorem samePlace (matching : Matching dfa dfa2 R) (inRange : dfa.InRange)
    (inRange2 : dfa2.InRange) {id id2 : Nat} (related : R id id2) :
    SamePlace dfa dfa2 id id2 := by
  have orders := matching.forall₂_order inRange inRange2
  rcases List.mem_iff_getElem?.mp (matching.mem_order related) with ⟨place, atPlace⟩
  rcases List.getElem?_eq_some_iff.mp atPlace with ⟨placeLt, placed⟩
  have placeLt2 : place < dfa2.order.length := orders.length_eq ▸ placeLt
  have samePlace := orders.get placeLt placeLt2
  rw [List.get_eq_getElem, List.get_eq_getElem, placed] at samePlace
  have eq := matching.unique.2 samePlace related
  exact ⟨place, atPlace, List.getElem?_eq_some_iff.mpr ⟨placeLt2, eq⟩⟩

/-- Automata that can be matched have equal descriptions. -/
theorem shape_eq (matching : Matching dfa dfa2 R) (inRange : dfa.InRange)
    (inRange2 : dfa2.InRange) : dfa.shape = dfa2.shape := by
  have states : List.Forall₂ (· = ·) dfa.shape dfa2.shape := by
    rw [shape, shape, List.forall₂_map_left_iff, List.forall₂_map_right_iff]
    apply (matching.forall₂_order inRange inRange2).imp
    intro id id2 related
    have edges : List.Forall₂ (· = ·)
        ((dfa.state id).sortedEdges.map fun edge => (edge.1, dfa.places.getD edge.2 0))
        ((dfa2.state id2).sortedEdges.map fun edge => (edge.1, dfa2.places.getD edge.2 0)) := by
      rw [List.forall₂_map_left_iff, List.forall₂_map_right_iff]
      apply (matching.forall₂_sortedEdges related).imp
      rintro edge edge2 ⟨symbolEq, targets⟩
      rw [symbolEq, (matching.samePlace inRange inRange2 targets).getD_places_eq]
    rw [List.forall₂_eq_eq_eq] at edges
    rw [edges, matching.isAccepting_eq related]
  rwa [List.forall₂_eq_eq_eq] at states

end Matching

/-- Automata with equal descriptions answer every input alike. -/
theorem alike_of_shape_eq (inRange : dfa.InRange) (inRange2 : dfa2.InRange)
    (shape_eq : dfa.shape = dfa2.shape) : Alike dfa dfa2 dfa.start dfa2.start :=
  (matching_of_shape_eq inRange inRange2 shape_eq).alike

/-! ## Reduced automata -/

/-- No two reachable states are alike. -/
def Reduced (dfa : Dfa) : Prop :=
  ∀ id ∈ dfa.order, ∀ id2 ∈ dfa.order, Alike dfa dfa id id2 → id = id2

/-- Reachable states of two automata that are alike. -/
def Corresponds (dfa dfa2 : Dfa) (id id2 : Nat) : Prop :=
  id ∈ dfa.order ∧ id2 ∈ dfa2.order ∧ Alike dfa dfa2 id id2

theorem biUnique_corresponds (reduced : dfa.Reduced) (reduced2 : dfa2.Reduced) :
    Relator.BiUnique (Corresponds dfa dfa2) := by
  constructor
  · rintro id other id2 ⟨idMem, _, alike⟩ ⟨otherMem, _, otherAlike⟩
    exact reduced id idMem other otherMem (alike.trans otherAlike.symm)
  · rintro id id2 other ⟨_, id2Mem, alike⟩ ⟨_, otherMem, otherAlike⟩
    exact reduced2 id2 id2Mem other otherMem (alike.symm.trans otherAlike)

/-- Reduced automata that answer every input alike are matched by that. -/
theorem matching_corresponds (inRange : dfa.InRange) (inRange2 : dfa2.InRange)
    (reduced : dfa.Reduced) (reduced2 : dfa2.Reduced)
    (alike : Alike dfa dfa2 dfa.start dfa2.start) :
    Matching dfa dfa2 (Corresponds dfa dfa2) := by
  constructor
  case unique => exact biUnique_corresponds reduced reduced2
  case mem_order => exact fun corresponds => corresponds.1
  case start => exact ⟨inRange.start_mem_order, inRange2.start_mem_order, alike⟩
  case isAccepting_eq => exact fun corresponds => corresponds.2.2.isAccepting_eq
  case edges =>
      rintro id id2 ⟨idMem, id2Mem, idAlike⟩ symbol
      cases edge : dfa.target? id symbol with
      | none =>
          have missing := idAlike.isSome_target?_eq symbol
          rw [edge, Option.isSome_none, eq_comm, Option.isSome_eq_false_iff,
            Option.isNone_iff_eq_none] at missing
          rw [missing]
          exact .none
      | some target =>
          obtain ⟨target2, edge2, targetsAlike⟩ := idAlike.exists_target? edge
          rw [edge2]
          exact .some ⟨inRange.target_mem_order idMem edge,
            inRange2.target_mem_order id2Mem edge2, targetsAlike⟩

/-- Reduced automata that answer every input alike have equal descriptions. -/
theorem shape_eq_of_alike (inRange : dfa.InRange) (inRange2 : dfa2.InRange)
    (reduced : dfa.Reduced) (reduced2 : dfa2.Reduced)
    (alike : Alike dfa dfa2 dfa.start dfa2.start) : dfa.shape = dfa2.shape :=
  (matching_corresponds inRange inRange2 reduced reduced2 alike).shape_eq inRange inRange2

end ByteSignature.Dfa
