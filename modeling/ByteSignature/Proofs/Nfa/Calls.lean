import ByteSignature.Proofs.Nfa.Build

/-!
# Runs of operator calls

A run starts from a builder without states and calls operators in any order.  Each call
takes its operands from the fragments that earlier calls have returned and no call has
taken since.  A call that succeeds takes its operands away and leaves its result; a call
that fails takes nothing, but the states that it added before it failed stay.

At every point of a run each fragment that is left spells the language of its expression
tree.  Two facts carry the induction: the states that a fragment reaches are its own, and
a call changes only the edges of its operands and of new states.
-/

namespace ByteSignature.Nfa

/-- A fragment with the expression tree of the calls that returned it. -/
structure Piece where
  fragment : Fragment
  pattern : Pattern

/-- A call of an operator. -/
inductive Call where
  | symbol (byte : UInt8)
  | concat (first second : Piece)
  | alternate (first second : Piece)
  | optional (operand : Piece)
  | kleene (operand : Piece)
  | positive (operand : Piece)

namespace Call

/-- The pieces that the call takes when it succeeds. -/
def operands : Call → List Piece
  | symbol _ => []
  | concat first second | alternate first second => [first, second]
  | optional operand | kleene operand | positive operand => [operand]

/-- What the call does to the builder. -/
def perform : Call → Build Fragment
  | symbol byte => Build.symbol byte
  | concat first second => Build.concat first.fragment second.fragment
  | alternate first second => Build.alternate first.fragment second.fragment
  | optional operand => Build.optional operand.fragment
  | kleene operand => Build.kleene operand.fragment
  | positive operand => Build.positive operand.fragment

/-- The expression tree of the result. -/
def pattern : Call → Pattern
  | symbol byte => .symbol byte
  | concat first second => .concat first.pattern second.pattern
  | alternate first second => .alternate first.pattern second.pattern
  | optional operand => .optional operand.pattern
  | kleene operand => .kleene operand.pattern
  | positive operand => .positive operand.pattern

/-- The number of states that the call adds. -/
def stateCount : Call → Nat
  | concat _ _ => 0
  | optional _ => 1
  | symbol _ | alternate _ _ | kleene _ | positive _ => 2

end Call

/-- The builders that calls lead to under a limit, with the pieces that no call has taken
yet. -/
inductive Run (limit : Nat) : Builder → List Piece → Prop where
  /-- There are no states and no pieces yet. -/
  | start : Run limit (.empty limit) []
  /-- A call that succeeds takes its operands and leaves its result. -/
  | succeed {builder next : Builder} {pieces rest : List Piece} {fragment : Fragment}
      (run : Run limit builder pieces) (call : Call)
      (available : pieces.Perm (call.operands ++ rest))
      (done : call.perform builder = .ok fragment next) :
      Run limit next (⟨fragment, call.pattern⟩ :: rest)
  /-- A call that fails takes nothing. -/
  | fail {builder next : Builder} {pieces rest : List Piece} {fault : BuildFault}
      (run : Run limit builder pieces) (call : Call)
      (available : pieces.Perm (call.operands ++ rest))
      (failed : call.perform builder = .error fault next) :
      Run limit next pieces

namespace Builder

/-- The states that the entry of a fragment reaches. -/
def territory (builder : Builder) (fragment : Fragment) : Set Nat :=
  {id | ∃ input, Path builder.wiring fragment.start input id}

variable {builder next : Builder} {region : Set Nat} {fragment : Fragment}
  {language : Language UInt8}

theorem Holds.territory_eq (holds : builder.Holds region fragment language) :
    builder.territory fragment = region := by
  ext id
  constructor
  · rintro ⟨input, path⟩
    exact path.mem_of_closed holds.realizes.closed holds.realizes.start_mem
  · exact holds.realizes.reachable id

/-- The action fails because no further state may exist, and it has added nothing but
states. -/
def MeetsLimit {α : Type} (builder : Builder) (action : Build α) : Prop :=
  ∃ next count,
    action builder = .error (.limit ⟨.nfaStates, builder.limit, builder.limit + 1⟩) next ∧
    Extends builder next count [] ∧ next.size ≤ next.limit

/-- An action that first adds a state meets the limit when there is no room for it, or
when the rest of the action meets the limit. -/
theorem meetsLimit_state_bind {α : Type} {further : Nat → Build α}
    (fits : builder.size ≤ builder.limit)
    (rest : ∀ next, builder.size < builder.limit → Extends builder next 1 [] →
      next.MeetsLimit (further builder.size)) :
    builder.MeetsLimit (Build.state >>= further) := by
  by_cases room : builder.size < builder.limit
  · obtain ⟨middle, new, added⟩ := Build.state_eq_ok room
    obtain ⟨next, count, failed, addedFurther, nextFits⟩ := rest middle room added
    refine ⟨next, 1 + count, ?_, added.trans addedFurther, nextFits⟩
    rw [Build.bind_of_ok new, failed, added.limit_eq]
  · have sizeEq : builder.size = builder.limit := by omega
    refine ⟨builder, 0, ?_, .refl builder, fits⟩
    rw [Build.bind_of_error (Build.state_eq_error room), sizeEq]

theorem meetsLimit_two_states {α : Type} (further : Nat → Nat → Build α)
    (fits : builder.size ≤ builder.limit) (full : builder.limit < builder.size + 2) :
    builder.MeetsLimit (do
      let start ← Build.state
      let terminate ← Build.state
      further start terminate) := by
  refine meetsLimit_state_bind fits fun middle room added => ?_
  have sizeEq := added.size_eq
  have limitEq := added.limit_eq
  refine meetsLimit_state_bind (by omega) fun next room2 _ => ?_
  omega

end Builder

/-- A call whose states do not fit meets the limit. -/
theorem Call.meetsLimit (call : Call) {builder : Builder} (fits : builder.size ≤ builder.limit)
    (full : builder.limit < builder.size + call.stateCount) :
    builder.MeetsLimit call.perform := by
  cases call with
  | concat first second => exact absurd fits (Nat.not_le.mpr full)
  | optional operand =>
      refine Builder.meetsLimit_state_bind fits fun next room _ => ?_
      exact absurd full (Nat.not_lt.mpr room)
  | symbol byte => exact Builder.meetsLimit_two_states _ fits full
  | alternate first second => exact Builder.meetsLimit_two_states _ fits full
  | kleene operand => exact Builder.meetsLimit_two_states _ fits full
  | positive operand => exact Builder.meetsLimit_two_states _ fits full

/-! ## Pieces that share no states -/

/-- Each piece realizes its pattern in a territory of its own. -/
structure Apart (builder : Builder) (pieces : List Piece) : Prop where
  fits : builder.size ≤ builder.limit
  holds : ∀ piece ∈ pieces,
    builder.Holds (builder.territory piece.fragment) piece.fragment piece.pattern.language
  disjoint : pieces.Pairwise fun piece piece2 =>
    Disjoint (builder.territory piece.fragment) (builder.territory piece2.fragment)

namespace Apart

variable {builder next : Builder} {pieces pieces2 : List Piece}

theorem empty (limit : Nat) : Apart (.empty limit) [] where
  fits := Nat.zero_le limit
  holds := by simp
  disjoint := .nil

theorem perm (apart : Apart builder pieces) (perm : pieces.Perm pieces2) :
    Apart builder pieces2 where
  fits := apart.fits
  holds piece pieceMem := apart.holds piece (perm.mem_iff.mpr pieceMem)
  disjoint := (perm.pairwise_iff fun disjoint => disjoint.symm).mp apart.disjoint

theorem sublist (apart : Apart builder pieces) (sublist : pieces2.Sublist pieces) :
    Apart builder pieces2 where
  fits := apart.fits
  holds piece pieceMem := apart.holds piece (sublist.mem pieceMem)
  disjoint := apart.disjoint.sublist sublist

/-- Pieces stay apart while their edges are kept. -/
theorem of_keeps (apart : Apart builder pieces) (le : builder.size ≤ next.size)
    (fits : next.size ≤ next.limit)
    (keeps : ∀ piece ∈ pieces, ∀ id ∈ builder.territory piece.fragment,
      next.wiring id = builder.wiring id) : Apart next pieces := by
  have holds (piece : Piece) (pieceMem : piece ∈ pieces) :=
    (apart.holds piece pieceMem).congr (keeps piece pieceMem) le
  refine ⟨fits, fun piece pieceMem => ?_, ?_⟩
  · rw [(holds piece pieceMem).territory_eq]
    exact holds piece pieceMem
  · refine apart.disjoint.imp_of_mem fun {piece piece2} pieceMem piece2Mem disjoint => ?_
    rwa [(holds piece pieceMem).territory_eq, (holds piece2 piece2Mem).territory_eq]

end Apart

namespace Call

/-- The states whose edges the call may change: those of its operands and new ones. -/
def region (call : Call) (builder : Builder) : Set Nat :=
  {id | ∃ piece ∈ call.operands, id ∈ builder.territory piece.fragment} ∪
    builder.newStates call.stateCount

theorem region_of_operands_eq_singleton {call : Call} {operand : Piece}
    (operands_eq : call.operands = [operand]) (builder : Builder) :
    call.region builder =
      builder.territory operand.fragment ∪ builder.newStates call.stateCount := by
  simp [region, operands_eq]

theorem region_of_operands_eq_pair {call : Call} {first second : Piece}
    (operands_eq : call.operands = [first, second]) (builder : Builder) :
    call.region builder = builder.territory first.fragment ∪
      builder.territory second.fragment ∪ builder.newStates call.stateCount := by
  ext id
  simp [region, operands_eq]

/-- On operands that share no states, each operator does what its pattern says. -/
theorem performs (call : Call) {builder : Builder} (apart : Apart builder call.operands) :
    builder.Performs call.perform call.stateCount (call.region builder)
      call.pattern.language := by
  have holds := apart.holds
  have disjoint := apart.disjoint
  cases call with
  | symbol byte =>
      have region_eq : (symbol byte).region builder = builder.newStates 2 := by
        simp [region, operands, stateCount]
      rw [region_eq, Builder.newStates_two]
      exact Builder.performs_symbol builder byte
  | concat first second =>
      have noNew : builder.newStates (concat first second).stateCount = ∅ := Set.Ico_self _
      rw [region_of_operands_eq_pair rfl, noNew, Set.union_empty]
      simp only [operands, List.forall_mem_cons, List.pairwise_pair] at holds disjoint
      exact holds.1.performs_concat holds.2.1 disjoint apart.fits
  | alternate first second =>
      rw [region_of_operands_eq_pair rfl, stateCount, Builder.newStates_two]
      simp only [operands, List.forall_mem_cons, List.pairwise_pair] at holds disjoint
      exact holds.1.performs_alternate holds.2.1 disjoint
  | optional operand =>
      rw [region_of_operands_eq_singleton rfl, stateCount, Builder.newStates_one]
      exact (holds operand List.mem_cons_self).performs_optional
  | kleene operand =>
      rw [region_of_operands_eq_singleton rfl, stateCount, Builder.newStates_two]
      exact (holds operand List.mem_cons_self).performs_kleene
  | positive operand =>
      rw [region_of_operands_eq_singleton rfl, stateCount, Builder.newStates_two]
      exact (holds operand List.mem_cons_self).performs_positive

end Call

namespace Apart

variable {builder next : Builder} {call : Call} {rest : List Piece} {fragment : Fragment}

/-- The states of a piece that the call does not take are outside its region. -/
theorem disjoint_region (apart : Apart builder (call.operands ++ rest)) {piece : Piece}
    (pieceMem : piece ∈ rest) :
    Disjoint (builder.territory piece.fragment) (call.region builder) := by
  rw [Set.disjoint_left]
  rintro id idMem (⟨operand, operandMem, operandIdMem⟩ | isNew)
  · have disjoint := (List.pairwise_append.mp apart.disjoint).2.2 operand operandMem piece pieceMem
    exact Set.disjoint_left.mp disjoint operandIdMem idMem
  · have idLt := (apart.holds piece (List.mem_append_right _ pieceMem)).lt_size id idMem
    exact absurd isNew.1 (Nat.not_le.mpr idLt)

theorem of_gains (apart : Apart builder (call.operands ++ rest))
    (gains : Builder.Gains builder next call.stateCount (call.region builder) fragment
      call.pattern.language)
    (fits : next.size ≤ next.limit) : Apart next (⟨fragment, call.pattern⟩ :: rest) := by
  have others : Apart builder rest := apart.sublist (List.sublist_append_right _ _)
  have le : builder.size ≤ next.size := by
    rw [gains.size_eq]
    exact Nat.le_add_right _ _
  have keeps (piece : Piece) (pieceMem : piece ∈ rest) (id : Nat)
      (idMem : id ∈ builder.territory piece.fragment) : next.wiring id = builder.wiring id :=
    gains.keeps id (Set.disjoint_left.mp (apart.disjoint_region pieceMem) idMem)
  have kept := others.of_keeps le fits keeps
  refine ⟨fits, List.forall_mem_cons.mpr ⟨?_, kept.holds⟩,
    List.pairwise_cons.mpr ⟨fun piece pieceMem => ?_, kept.disjoint⟩⟩
  · rw [gains.holds.territory_eq]
    exact gains.holds
  · have pieceHolds := (others.holds piece pieceMem).congr (keeps piece pieceMem) le
    rw [gains.holds.territory_eq, pieceHolds.territory_eq]
    exact (apart.disjoint_region pieceMem).symm

/-- A call on pieces that are apart succeeds when its states fit and meets the limit
otherwise; the pieces that are left are apart in either case. -/
theorem call_cases (apart : Apart builder (call.operands ++ rest)) :
    (builder.size + call.stateCount ≤ builder.limit ∧ ∃ fragment next,
      call.perform builder = .ok fragment next ∧ next.limit = builder.limit ∧
        Apart next (⟨fragment, call.pattern⟩ :: rest)) ∨
    (builder.limit < builder.size + call.stateCount ∧ ∃ next,
      call.perform builder =
        .error (.limit ⟨.nfaStates, builder.limit, builder.limit + 1⟩) next ∧
      next.limit = builder.limit ∧ Apart next (call.operands ++ rest)) := by
  have own : Apart builder call.operands := apart.sublist (List.sublist_append_left _ _)
  rcases call.performs own with ⟨fits, fragment, next, done, gains⟩ | ⟨full, -⟩
  · have sizeEq := gains.size_eq
    have limitEq := gains.limit_eq
    exact Or.inl ⟨fits, fragment, next, done, limitEq, apart.of_gains gains (by omega)⟩
  · obtain ⟨next, count, failed, added, fits⟩ := call.meetsLimit apart.fits full
    refine Or.inr ⟨full, next, failed, added.limit_eq, apart.of_keeps ?_ fits ?_⟩
    · rw [added.size_eq]
      exact Nat.le_add_right _ _
    · intro piece _ id _
      rw [added.wiring_eq]
      exact List.append_nil _

end Apart

/-! ## Runs -/

/-- The pieces of a run are apart, under its limit. -/
theorem Run.apart {limit : Nat} {builder : Builder} {pieces : List Piece}
    (run : Run limit builder pieces) : builder.limit = limit ∧ Apart builder pieces := by
  induction run with
  | start => exact ⟨rfl, .empty limit⟩
  | succeed run call available done ih =>
      -- The call cannot have ended otherwise than it did.
      rcases (ih.2.perm available).call_cases with
        ⟨-, fragment, next, done2, limitEq, apart⟩ | ⟨-, next, failed, -⟩
      · cases done.symm.trans done2
        exact ⟨limitEq.trans ih.1, apart⟩
      · cases done.symm.trans failed
  | fail run call available failed ih =>
      rcases (ih.2.perm available).call_cases with
        ⟨-, fragment, next, done, -⟩ | ⟨-, next, failed2, limitEq, apart⟩
      · cases failed.symm.trans done
      · cases failed.symm.trans failed2
        exact ⟨limitEq.trans ih.1, apart.perm available.symm⟩

end ByteSignature.Nfa
