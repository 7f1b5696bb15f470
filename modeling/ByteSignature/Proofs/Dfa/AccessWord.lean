import ByteSignature.Proofs.Dfa.Behaviour
import ByteSignature.Proofs.Graph.Precedence
import Mathlib.Data.List.Shortlex

/-!
# The least inputs that lead to states

Every reachable state has an input that leads to it and is least in shortlex order: no other is
shorter, and among those of its length it comes first.  The canonical order lists the states by
these inputs.  Hence it does not depend on the numbers of states or on the order in which edges
were added, and neither does the description by places: descriptions are equal exactly when one
automaton becomes the other by renaming its reachable states.
-/

namespace ByteSignature

/-- Shorter inputs come first, and inputs of one length by the first byte that differs. -/
abbrev ShortlexLt : List UInt8 → List UInt8 → Prop :=
  List.Shortlex (· < ·)

namespace ShortlexLt

theorem iff {first second : List UInt8} : ShortlexLt first second ↔
    first.length < second.length ∨
      first.length = second.length ∧ List.Lex (· < ·) first second :=
  List.shortlex_def

theorem wellFounded : WellFounded ShortlexLt := by
  apply List.Shortlex.wf
  exact Subrelation.wf (fun lt => UInt8.lt_iff_toNat_lt.mp lt) (measure UInt8.toNat).wf

theorem trichotomy (first second : List UInt8) :
    ShortlexLt first second ∨ first = second ∨ ShortlexLt second first := by
  by_contra neither
  rw [not_or, not_or] at neither
  exact neither.2.1 (Std.Trichotomous.trichotomous _ _ neither.1 neither.2.2)

theorem trans {first second third : List UInt8} (lt : ShortlexLt first second)
    (lt2 : ShortlexLt second third) : ShortlexLt first third := by
  rw [iff] at lt lt2 ⊢
  rcases lt with shorter | ⟨length_eq, lex⟩
  · exact .inl (by omega)
  · rcases lt2 with shorter | ⟨length_eq2, lex2⟩
    · exact .inl (by omega)
    · exact .inr ⟨length_eq.trans length_eq2, List.lt_trans lex lex2⟩

theorem lex_append_singleton_iff {first second : List UInt8} {symbol symbol2 : UInt8}
    (length_eq : first.length = second.length) :
    List.Lex (· < ·) (first ++ [symbol]) (second ++ [symbol2]) ↔
      List.Lex (· < ·) first second ∨ first = second ∧ symbol < symbol2 := by
  induction first generalizing second with
  | nil =>
      rw [List.length_nil, eq_comm, List.length_eq_zero_iff] at length_eq
      subst length_eq
      simp
  | cons head first ih =>
      cases second with
      | nil => cases length_eq
      | cons head2 second =>
          rw [List.cons_append, List.cons_append, List.cons_lex_cons_iff, List.cons_lex_cons_iff,
            ih (Nat.succ.inj length_eq), List.cons.injEq]
          tauto

/-- The last byte counts only between inputs that agree in all others. -/
theorem append_singleton_iff {first second : List UInt8} {symbol symbol2 : UInt8} :
    ShortlexLt (first ++ [symbol]) (second ++ [symbol2]) ↔
      ShortlexLt first second ∨ first = second ∧ symbol < symbol2 := by
  rw [iff, iff, List.length_append, List.length_append]
  by_cases length_eq : first.length = second.length
  · rw [lex_append_singleton_iff length_eq]
    simp [length_eq]
  · have ne : first ≠ second := fun eq => length_eq (congrArg List.length eq)
    simp [length_eq, ne]

end ShortlexLt

namespace Dfa

variable {dfa dfa2 : Dfa}

/-! ## Access words -/

/-- The input leads to the state, and no lesser one does. -/
structure AccessWord (dfa : Dfa) (id : Nat) (word : List UInt8) : Prop where
  leads : dfa.walk word = some id
  least : ∀ other, dfa.walk other = some id → ¬ ShortlexLt other word

/-- The first state has the lesser access word. -/
def Precedes (dfa : Dfa) (first second : Nat) : Prop :=
  ∃ word word2, dfa.AccessWord first word ∧ dfa.AccessWord second word2 ∧ ShortlexLt word word2

theorem exists_accessWord {id : Nat} {input : List UInt8} (walk : dfa.walk input = some id) :
    ∃ word, dfa.AccessWord id word := by
  obtain ⟨word, leads, least⟩ :=
    ShortlexLt.wellFounded.has_min {word | dfa.walk word = some id} ⟨input, walk⟩
  exact ⟨word, leads, least⟩

theorem AccessWord.unique {id : Nat} {word word2 : List UInt8} (access : dfa.AccessWord id word)
    (access2 : dfa.AccessWord id word2) : word = word2 := by
  rcases ShortlexLt.trichotomy word word2 with lt | eq | gt
  · exact absurd lt (access2.least word access.leads)
  · exact eq
  · exact absurd gt (access.least word2 access2.leads)

/-- All but the last byte of an access word are the access word of the state before. -/
theorem AccessWord.exists_parent (inRange : dfa.InRange) {id : Nat} {before : List UInt8}
    {symbol : UInt8} (access : dfa.AccessWord id (before ++ [symbol])) :
    ∃ parent, dfa.AccessWord parent before ∧ dfa.target? parent symbol = some id := by
  have leads := access.leads
  rw [walk_eq_walkFrom inRange, walkFrom_append_singleton, Option.bind_eq_some_iff] at leads
  obtain ⟨parent, walk, edge⟩ := leads
  refine ⟨parent, ⟨(walk_eq_walkFrom inRange before).trans walk, ?_⟩, edge⟩
  intro other otherWalk lesser
  apply access.least (other ++ [symbol])
  · rw [walk_eq_walkFrom inRange] at otherWalk ⊢
    rw [walkFrom_append_singleton, otherWalk]
    exact edge
  · exact ShortlexLt.append_singleton_iff.mpr (.inl lesser)

/-! ## The canonical order -/

theorem Precedes.asymm {first second : Nat} (precedes : dfa.Precedes first second) :
    ¬ dfa.Precedes second first := by
  rintro ⟨word2, word, access2, access, gt⟩
  obtain ⟨first, second, firstAccess, secondAccess, lt⟩ := precedes
  rw [firstAccess.unique access, secondAccess.unique access2] at lt
  exact Std.Asymm.asymm _ _ lt gt

theorem not_precedes_start (inRange : dfa.InRange) (id : Nat) :
    ¬ dfa.Precedes id dfa.start := by
  rintro ⟨word, word2, _, access2, lt⟩
  have leads : dfa.walk [] = some dfa.start := walk_eq_walkFrom inRange []
  rcases List.shortlex_nil_or_eq_nil word2 with nilLt | rfl
  · exact access2.least [] leads nilLt
  · exact List.not_shortlex_nil_right lt

theorem exists_accessWord_of_reaches (inRange : dfa.InRange) {id : Nat}
    (reaches : Graph.Reaches dfa.sortedTargets dfa.start id) : ∃ word, dfa.AccessWord id word := by
  obtain ⟨input, walk⟩ := reaches_sortedTargets_iff.mp reaches
  exact exists_accessWord ((walk_eq_walkFrom inRange input).trans walk)

/-- An edge for a lesser byte stands further to the front. -/
theorem mem_of_sortedEdges_eq_append {id target other : Nat} {symbol lesser : UInt8}
    {done later : List (UInt8 × Nat)}
    (split : (dfa.state id).sortedEdges = done ++ (symbol, target) :: later)
    (edge : dfa.target? id lesser = some other) (lt : lesser < symbol) :
    (lesser, other) ∈ done := by
  have edgeMem := mem_sortedEdges_iff.mpr edge
  have sorted := (dfa.state id).pairwise_sortedEdges
  rw [split, List.map_append, List.map_cons, List.pairwise_append, List.pairwise_cons] at sorted
  rw [split] at edgeMem
  rcases List.mem_append.mp edgeMem with inDone | behind
  · exact inDone
  · rcases List.mem_cons.mp behind with isEdge | inLater
    · rw [Prod.mk.injEq] at isEdge
      rw [isEdge.1] at lt
      exact absurd lt (UInt8.lt_irrefl symbol)
    · have le := sorted.2.1.1 lesser (List.mem_map.mpr ⟨_, inLater, rfl⟩)
      exact absurd lt (UInt8.not_lt.mpr le)

/-- Breadth-first search meets states by their access words: what precedes the target of an
edge is entered from a state that precedes the source, or from the source for a lesser byte. -/
theorem schedules_precedes (inRange : dfa.InRange) :
    Graph.Schedules dfa.sortedTargets dfa.start dfa.Precedes := by
  constructor
  case asymm => exact Precedes.asymm
  case total =>
      intro first second firstReached secondReached
      obtain ⟨word, access⟩ := exists_accessWord_of_reaches inRange firstReached
      obtain ⟨word2, access2⟩ := exists_accessWord_of_reaches inRange secondReached
      rcases ShortlexLt.trichotomy word word2 with lt | rfl | gt
      · exact .inl ⟨word, word2, access, access2, lt⟩
      · exact .inr (.inl (Option.some.inj (access.leads.symm.trans access2.leads)))
      · exact .inr (.inr ⟨word2, word, access2, access, gt⟩)
  case met =>
      rintro node target earlier doneTargets laterTargets nodeReached whole
        ⟨word, targetWord, access, targetAccess, lt⟩
      obtain ⟨nodeWord, nodeAccess⟩ := exists_accessWord_of_reaches inRange nodeReached
      obtain ⟨done, rest, split, rfl, restTargets⟩ := List.map_eq_append_iff.mp whole
      obtain ⟨⟨symbol, target⟩, later, rfl, rfl, rfl⟩ := List.map_eq_cons_iff.mp restTargets
      have edge : dfa.target? node symbol = some target :=
        mem_sortedEdges_iff.mp (split ▸ List.mem_append_right _ List.mem_cons_self)
      -- The edge leads to the target by one more byte, so the target's word is no greater.
      have ltEdge : ShortlexLt word (nodeWord ++ [symbol]) := by
        have leads : dfa.walk (nodeWord ++ [symbol]) = some target := by
          have nodeLeads := nodeAccess.leads
          rw [walk_eq_walkFrom inRange] at nodeLeads ⊢
          rw [walkFrom_append_singleton, nodeLeads]
          exact edge
        rcases ShortlexLt.trichotomy targetWord (nodeWord ++ [symbol]) with less | eq | greater
        · exact lt.trans less
        · exact eq ▸ lt
        · exact absurd greater (targetAccess.least _ leads)
      rcases List.eq_nil_or_concat' word with rfl | ⟨before, last, rfl⟩
      · have leads := access.leads
        rw [walk_eq_walkFrom inRange] at leads
        exact .inl (Option.some.inj leads).symm
      · obtain ⟨parent, parentAccess, parentEdge⟩ := access.exists_parent inRange
        rcases ShortlexLt.append_singleton_iff.mp ltEdge with less | ⟨rfl, lastLt⟩
        · refine .inr (.inr ⟨parent, ⟨before, nodeWord, parentAccess, nodeAccess, less⟩, ?_⟩)
          exact mem_sortedTargets_iff.mpr ⟨last, parentEdge⟩
        · have same : parent = node :=
            Option.some.inj (parentAccess.leads.symm.trans nodeAccess.leads)
          rw [same] at parentEdge
          have inDone := mem_of_sortedEdges_eq_append split parentEdge lastLt
          exact .inr (.inl (List.mem_map.mpr ⟨_, inDone, rfl⟩))

theorem pairwise_order (inRange : dfa.InRange) : dfa.order.Pairwise dfa.Precedes := by
  rw [inRange.order_eq]
  exact Graph.pairwise_discover (schedules_precedes inRange) (not_precedes_start inRange) dfa.size

/-! ## Renaming -/

/-- Renaming turns the reachable states of one automaton into those of the other, and with them
the start, the states where inputs may end, and all edges. -/
structure Renames (dfa dfa2 : Dfa) (rename : Nat → Nat) : Prop where
  bijOn : Set.BijOn rename dfa.walkedStates dfa2.walkedStates
  start_eq : rename dfa.start = dfa2.start
  isAccepting_eq : ∀ id ∈ dfa.walkedStates, dfa2.isAccepting (rename id) = dfa.isAccepting id
  target?_eq : ∀ id ∈ dfa.walkedStates, ∀ symbol,
    dfa2.target? (rename id) symbol = (dfa.target? id symbol).map rename

theorem mem_walkedStates_iff (inRange : dfa.InRange) {id : Nat} :
    id ∈ dfa.walkedStates ↔ id ∈ dfa.order := by
  rw [inRange.mem_order_iff, ← funext (walk_eq_walkFrom inRange)]
  rfl

/-- Renaming matches every reachable state with the one that it becomes. -/
theorem Renames.matching (inRange : dfa.InRange) {rename : Nat → Nat}
    (renames : Renames dfa dfa2 rename) :
    Matching dfa dfa2 fun id id2 => id ∈ dfa.walkedStates ∧ rename id = id2 := by
  constructor
  case unique =>
      constructor
      · rintro id other _ ⟨idMem, rfl⟩ ⟨otherMem, eq⟩
        exact (renames.bijOn.injOn otherMem idMem eq).symm
      · rintro id _ _ ⟨_, rfl⟩ ⟨_, rfl⟩
        rfl
  case mem_order =>
      rintro id _ ⟨idMem, rfl⟩
      exact (mem_walkedStates_iff inRange).mp idMem
  case start =>
      exact ⟨(mem_walkedStates_iff inRange).mpr inRange.start_mem_order, renames.start_eq⟩
  case isAccepting_eq =>
      rintro id _ ⟨idMem, rfl⟩
      exact (renames.isAccepting_eq id idMem).symm
  case edges =>
      rintro id _ ⟨idMem, rfl⟩ symbol
      rw [renames.target?_eq id idMem symbol]
      cases edge : dfa.target? id symbol with
      | none => exact .none
      | some target =>
          rw [mem_walkedStates_iff inRange] at idMem
          have targetMem := inRange.target_mem_order idMem edge
          exact .some ⟨(mem_walkedStates_iff inRange).mpr targetMem, rfl⟩

/-- The state of the other automaton that has the same place. -/
def counterpart (dfa dfa2 : Dfa) (id : Nat) : Nat :=
  dfa2.order.getD (dfa.places.getD id 0) 0

theorem samePlace_counterpart (shape_eq : dfa.shape = dfa2.shape) {id : Nat}
    (idMem : id ∈ dfa.order) : SamePlace dfa dfa2 id (counterpart dfa dfa2 id) := by
  obtain ⟨place, atPlace⟩ := List.mem_iff_getElem?.mp idMem
  have placeLt := (List.getElem?_eq_some_iff.mp atPlace).1
  rw [← length_shape, shape_eq, length_shape] at placeLt
  refine ⟨place, atPlace, ?_⟩
  rw [counterpart, getD_places atPlace, List.getD_eq_getElem?_getD,
    List.getElem?_eq_getElem placeLt]
  rfl

/-- With equal descriptions, going to the state of the same place is a renaming. -/
theorem renames_counterpart (inRange : dfa.InRange) (inRange2 : dfa2.InRange)
    (shape_eq : dfa.shape = dfa2.shape) : Renames dfa dfa2 (counterpart dfa dfa2) := by
  have matching := matching_of_shape_eq inRange inRange2 shape_eq
  have same {id : Nat} (idMem : id ∈ dfa.walkedStates) :
      SamePlace dfa dfa2 id (counterpart dfa dfa2 id) :=
    samePlace_counterpart shape_eq ((mem_walkedStates_iff inRange).mp idMem)
  have counterpart_eq {id id2 : Nat} (related : SamePlace dfa dfa2 id id2) :
      counterpart dfa dfa2 id = id2 :=
    matching.unique.2 (samePlace_counterpart shape_eq (matching.mem_order related)) related
  constructor
  case bijOn =>
      refine ⟨?_, ?_, ?_⟩
      · intro id idMem
        obtain ⟨place, _, atPlace2⟩ := same idMem
        exact (mem_walkedStates_iff inRange2).mpr (List.mem_of_getElem? atPlace2)
      · intro id idMem other otherMem eq
        exact matching.unique.1 (same idMem) (eq ▸ same otherMem)
      · intro id2 id2Mem
        obtain ⟨place, atPlace2⟩ :=
          List.mem_iff_getElem?.mp ((mem_walkedStates_iff inRange2).mp id2Mem)
        have placeLt := (List.getElem?_eq_some_iff.mp atPlace2).1
        rw [← length_shape, ← shape_eq, length_shape] at placeLt
        have atPlace := List.getElem?_eq_getElem placeLt
        exact ⟨dfa.order[place],
          (mem_walkedStates_iff inRange).mpr (List.mem_of_getElem? atPlace),
          counterpart_eq ⟨place, atPlace, atPlace2⟩⟩
  case start_eq => exact counterpart_eq matching.start
  case isAccepting_eq =>
      intro id idMem
      exact (matching.isAccepting_eq (same idMem)).symm
  case target?_eq =>
      intro id idMem symbol
      have targets := matching.edges (same idMem) symbol
      generalize dfa.target? id symbol = edge at targets
      generalize dfa2.target? (counterpart dfa dfa2 id) symbol = edge2 at targets
      cases targets with
      | none => rfl
      | some related => exact congrArg some (counterpart_eq related).symm

/-- The canonical order lists exactly the reachable states, each once, by the least inputs that
lead to them.  So descriptions are equal exactly when one automaton is the other with its
reachable states renamed. -/
theorem order_along_access_words (inRange : dfa.InRange) :
    dfa.order.Nodup ∧
      (∀ id, id ∈ dfa.order ↔ ∃ input, dfa.walk input = some id) ∧
      (∀ id ∈ dfa.order, ∃ word, dfa.AccessWord id word) ∧
      dfa.order.Pairwise dfa.Precedes ∧
      ∀ dfa2 : Dfa, dfa2.InRange →
        (dfa.shape = dfa2.shape ↔ ∃ rename, Renames dfa dfa2 rename) := by
  have mem_iff (id : Nat) : id ∈ dfa.order ↔ ∃ input, dfa.walk input = some id :=
    (mem_walkedStates_iff inRange).symm
  refine ⟨dfa.nodup_order, mem_iff, ?_, pairwise_order inRange, ?_⟩
  · intro id idMem
    obtain ⟨input, walk⟩ := (mem_iff id).mp idMem
    exact exists_accessWord walk
  · intro dfa2 inRange2
    constructor
    · intro shape_eq
      exact ⟨_, renames_counterpart inRange inRange2 shape_eq⟩
    · rintro ⟨rename, renames⟩
      exact (renames.matching inRange).shape_eq inRange inRange2

/-! ## A renaming, state by state -/

/-- The states that walks lead to are those of any list that walks do not leave and whose states
are all entered. -/
theorem mem_walkedStates_iff_mem (inRange : dfa.InRange) {ids : List Nat}
    (words : List (List UInt8)) (startMem : dfa.start ∈ ids)
    (closed : ∀ id ∈ ids, ∀ edge ∈ (dfa.state id).edges, edge.2 ∈ ids)
    (entered : ∀ id ∈ ids, ∃ word ∈ words, dfa.walk word = some id) {id : Nat} :
    id ∈ dfa.walkedStates ↔ id ∈ ids := by
  constructor
  · rintro ⟨input, walk⟩
    rw [walk_eq_walkFrom inRange] at walk
    exact walkFrom_mem_of_closed closed startMem walk
  · intro idMem
    obtain ⟨word, _, walk⟩ := entered id idMem
    exact ⟨word, walk⟩

/-- It takes one look at every edge to see that renaming respects the edges of a state. -/
theorem target?_rename_eq {rename : Nat → Nat} {id : Nat}
    (kept : ∀ edge ∈ (dfa.state id).edges,
      (edge.1, rename edge.2) ∈ (dfa2.state (rename id)).edges)
    (noOther : ∀ edge ∈ (dfa2.state (rename id)).edges,
      edge.1 ∈ (dfa.state id).edges.map Prod.fst) (symbol : UInt8) :
    dfa2.target? (rename id) symbol = (dfa.target? id symbol).map rename := by
  cases edge : dfa.target? id symbol with
  | some target => exact State.target?_eq_some_iff.mpr (kept _ (State.target?_eq_some_iff.mp edge))
  | none =>
      cases edge2 : dfa2.target? (rename id) symbol with
      | none => rfl
      | some target2 =>
          have present := noOther _ (State.target?_eq_some_iff.mp edge2)
          rw [← lookup_isSome_iff_mem_map, Option.isSome_iff_ne_none] at present
          exact absurd edge present

/-- Nor does it take more to see that states are renamed one to one. -/
theorem bijOn_of_perm {states states2 : Set Nat} {ids ids2 : List Nat} {rename : Nat → Nat}
    (mem_iff : ∀ {id}, id ∈ states ↔ id ∈ ids) (mem_iff2 : ∀ {id}, id ∈ states2 ↔ id ∈ ids2)
    (nodup : ids2.Nodup) (perm : (ids.map rename).Perm ids2) :
    Set.BijOn rename states states2 := by
  refine ⟨?_, ?_, ?_⟩
  · intro id idMem
    exact mem_iff2.mpr (perm.mem_iff.mp (List.mem_map_of_mem (mem_iff.mp idMem)))
  · intro id idMem other otherMem eq
    exact List.inj_on_of_nodup_map (perm.nodup_iff.mpr nodup) (mem_iff.mp idMem)
      (mem_iff.mp otherMem) eq
  · intro id2 id2Mem
    obtain ⟨id, idMem, rfl⟩ := List.mem_map.mp (perm.mem_iff.mpr (mem_iff2.mp id2Mem))
    exact ⟨id, mem_iff.mpr idMem, rfl⟩

/-- Two ways lead to state 2, one edge leads back to the start, the edges of the start were added
against their order, and state 4 is not reached. -/
def crossing : Dfa :=
  { ((((((((((empty.addState false).addState false).addState true).addState false).addState
      false).addEdge 3 98 0).addEdge 3 97 1).addEdge 0 97 2).addEdge 1 97 2).addEdge 1 98 3).addEdge
      4 97 0 with start := 3 }

/-- The reachable states of `crossing`, numbered by their places. -/
def crossingByPlace : Dfa :=
  ((((((((empty.addState false).addState false).addState false).addState true).addEdge
    0 97 1).addEdge 0 98 2).addEdge 1 97 3).addEdge 1 98 0).addEdge 2 97 3

/-- The places of the reachable states of `crossing`.  The last one is that of state 2, which is
entered by `aa` and by `ba`. -/
def crossingPlace (id : Nat) : Nat :=
  [2, 1, 3, 0].getD id 0

/-- The order in which the edges of `crossing` were added and the numbers of its states leave no
trace. -/
theorem order_along_access_words_crossing : crossing.InRange ∧ crossingByPlace.InRange ∧
    2 ∈ crossing.order ∧ 4 ∉ crossing.order ∧ crossing.order.Pairwise crossing.Precedes ∧
    crossing.shape = crossingByPlace.shape := by
  have inRange : crossing.InRange := by decide
  have inRange2 : crossingByPlace.InRange := by decide
  obtain ⟨_, mem_iff, _, ascending, shape_eq_iff⟩ := order_along_access_words inRange
  have walked {id : Nat} : id ∈ crossing.walkedStates ↔ id ∈ [0, 1, 2, 3] :=
    mem_walkedStates_iff_mem inRange [[98], [97], [97, 97], []] (by decide) (by decide) (by decide)
  have walked2 {id : Nat} : id ∈ crossingByPlace.walkedStates ↔ id ∈ [0, 1, 2, 3] :=
    mem_walkedStates_iff_mem inRange2 [[], [97], [98], [97, 97]] (by decide) (by decide) (by decide)
  have accepting : ∀ id ∈ [0, 1, 2, 3],
      crossingByPlace.isAccepting (crossingPlace id) = crossing.isAccepting id := by decide
  have kept : ∀ id ∈ [0, 1, 2, 3], ∀ edge ∈ (crossing.state id).edges,
      (edge.1, crossingPlace edge.2) ∈ (crossingByPlace.state (crossingPlace id)).edges := by decide
  have noOther : ∀ id ∈ [0, 1, 2, 3],
      ∀ edge ∈ (crossingByPlace.state (crossingPlace id)).edges,
        edge.1 ∈ (crossing.state id).edges.map Prod.fst := by decide
  refine ⟨inRange, inRange2, (mem_iff 2).mpr (walked.mpr (by decide)), ?_, ascending, ?_⟩
  · exact fun fourMem => absurd (walked.mp ((mem_iff 4).mp fourMem)) (by decide)
  · refine (shape_eq_iff crossingByPlace inRange2).mpr ⟨crossingPlace, ?_⟩
    constructor
    case bijOn => exact bijOn_of_perm walked walked2 (by decide) (by decide)
    case start_eq => rfl
    case isAccepting_eq => exact fun id idMem => accepting id (walked.mp idMem)
    case target?_eq =>
        intro id idMem
        exact target?_rename_eq (kept id (walked.mp idMem)) (noOther id (walked.mp idMem))

end Dfa

end ByteSignature
