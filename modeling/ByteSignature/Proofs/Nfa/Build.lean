import ByteSignature.Compile.Source
import ByteSignature.Proofs.Nfa.Fragment
import ByteSignature.Proofs.Pattern.Grammar

/-!
# Building patterns

Each operator of the builder either adds exactly the states and edges of its table row,
or it meets the limit; it never runs out of edges when the exits of its operands have
none.  Hence building a pattern succeeds exactly when its states fit under the limit, and
the fragment realizes the language of the pattern in the interval of its new states.
-/

namespace ByteSignature.Nfa

open Computability

namespace Builder

/-- The edges of a builder's states. -/
def wiring (builder : Builder) : Wiring :=
  edgesAt builder.states

theorem wiring_of_le {builder : Builder} {id : Nat} (le : builder.size ≤ id) :
    builder.wiring id = [] := by
  rw [wiring, edgesAt, Array.getElem?_eq_none le]

/-- The edges added to one state, in order. -/
def addedAt (added : List (Nat × Edge)) (id : Nat) : List Edge :=
  (added.filter fun pair => pair.1 == id).map Prod.snd

/-- The second builder has `count` further states and the added edges. -/
structure Extends (builder next : Builder) (count : Nat) (added : List (Nat × Edge)) :
    Prop where
  limit_eq : next.limit = builder.limit
  size_eq : next.size = builder.size + count
  wiring_eq : ∀ id, next.wiring id = builder.wiring id ++ addedAt added id

namespace Extends

theorem trans {builder middle next : Builder} {count count2 : Nat}
    {added added2 : List (Nat × Edge)} (first : Extends builder middle count added)
    (second : Extends middle next count2 added2) :
    Extends builder next (count + count2) (added ++ added2) where
  limit_eq := second.limit_eq.trans first.limit_eq
  size_eq := by rw [second.size_eq, first.size_eq, Nat.add_assoc]
  wiring_eq id := by
    rw [second.wiring_eq, first.wiring_eq, List.append_assoc]
    simp [addedAt]

theorem refl (builder : Builder) : Extends builder builder 0 [] where
  limit_eq := rfl
  size_eq := rfl
  wiring_eq id := by simp [addedAt]

end Extends

end Builder

namespace Build

open Builder

variable {α β : Type} {builder next : Builder}

theorem bind_of_ok {action : Build α} {further : α → Build β} {value : α}
    (done : action builder = .ok value next) :
    (action >>= further) builder = further value next := by
  simp only [bind, EStateM.bind, done]

theorem bind_of_error {action : Build α} {further : α → Build β} {fault : BuildFault}
    (failed : action builder = .error fault next) :
    (action >>= further) builder = .error fault next := by
  simp only [bind, EStateM.bind, failed]

/-! ## States and edges -/

theorem state_eq_ok (room : builder.size < builder.limit) :
    ∃ next, state builder = .ok builder.size next ∧ Extends builder next 1 [] := by
  have sizeLt : builder.states.size < builder.limit := room
  refine ⟨{ builder with states := builder.states.push .isolated }, ?_, ?_⟩
  · rw [state, if_pos sizeLt]
    rfl
  · refine ⟨rfl, Array.size_push .., fun id => ?_⟩
    by_cases isNew : id = builder.states.size
    · subst isNew
      simp [wiring, edgesAt, addedAt, State.isolated]
    · simp [wiring, edgesAt, addedAt, Array.getElem?_push, isNew]

theorem state_eq_error (full : ¬ builder.size < builder.limit) :
    state builder =
      .error (.limit ⟨.nfaStates, builder.limit, builder.size + 1⟩) builder := by
  have sizeNotLt : ¬ builder.states.size < builder.limit := full
  rw [state, if_neg sizeNotLt]
  rfl

theorem edge_eq_ok {source : Nat} (label : Label) (target : Nat)
    (sourceLt : source < builder.size) (room : (builder.wiring source).length < 2) :
    ∃ next, edge source label target builder = .ok () next ∧
      Extends builder next 0 [(source, ⟨label, target⟩)] := by
  have inside : source < builder.states.size := sourceLt
  have found : builder.states[source]? = some builder.states[source] :=
    Array.getElem?_eq_getElem inside
  have edges : builder.wiring source = builder.states[source].edges := by
    rw [wiring, edgesAt, found]
  rw [edges] at room
  obtain ⟨new, pushed⟩ : ∃ new, (builder.states[source]).push? ⟨label, target⟩ = some new := by
    rw [State.push?]
    exact ⟨_, dif_pos room⟩
  refine ⟨{ builder with states := builder.states.setIfInBounds source new }, ?_, ?_⟩
  · simp only [edge, found, pushed]
  · refine ⟨rfl, Array.size_setIfInBounds .., fun id => ?_⟩
    by_cases isSource : source = id
    · subst isSource
      rw [edges, wiring, edgesAt, Array.getElem?_setIfInBounds_self_of_lt inside]
      simp [State.edges_of_push?_eq_some pushed, addedAt]
    · rw [wiring, wiring, edgesAt, edgesAt, Array.getElem?_setIfInBounds_ne isSource]
      simp [addedAt, isSource]

/-- Add silent edges one after the other. -/
def silentEdges : List (Nat × Nat) → Build Unit
  | [] => pure ()
  | pair :: pairs => do
      silentEdge pair.1 pair.2
      silentEdges pairs

/-- The silent edges from the first to the second numbers of some pairs. -/
def silent (pairs : List (Nat × Nat)) : List (Nat × Edge) :=
  pairs.map fun pair => (pair.1, ⟨.epsilon, pair.2⟩)

theorem silentEdges_eq_ok {pairs : List (Nat × Nat)}
    (sourceLt : ∀ pair ∈ pairs, pair.1 < builder.size)
    (room : ∀ pair ∈ pairs,
      (builder.wiring pair.1).length + (addedAt (silent pairs) pair.1).length ≤ 2) :
    ∃ next, silentEdges pairs builder = .ok () next ∧
      Extends builder next 0 (silent pairs) := by
  induction pairs generalizing builder with
  | nil => exact ⟨builder, rfl, .refl builder⟩
  | cons pair pairs ih =>
      have hereRoom := room pair List.mem_cons_self
      simp only [silent, List.map_cons, addedAt, beq_self_eq_true, List.filter_cons_of_pos,
        List.length_cons] at hereRoom
      obtain ⟨middle, first, middleExtends⟩ := edge_eq_ok .epsilon pair.2
        (sourceLt pair List.mem_cons_self) (by omega)
      obtain ⟨next, rest, nextExtends⟩ := @ih middle
        (fun other otherMem => by
          rw [middleExtends.size_eq]
          exact sourceLt other (List.mem_cons_of_mem _ otherMem))
        (fun other otherMem => by
          have otherRoom := room other (List.mem_cons_of_mem _ otherMem)
          rw [middleExtends.wiring_eq, List.length_append]
          have split : addedAt (silent (pair :: pairs)) other.1 =
              addedAt [(pair.1, ⟨.epsilon, pair.2⟩)] other.1 ++ addedAt (silent pairs) other.1 := by
            simp [silent, addedAt, List.filter_cons]
            split <;> rfl
          rw [split, List.length_append] at otherRoom
          omega)
      refine ⟨next, ?_, middleExtends.trans nextExtends⟩
      rw [silentEdges, silentEdge, bind_of_ok first]
      exact rest

/-- Two new states, or the limit. -/
theorem two_states_cases (builder : Builder) (further : Nat → Nat → Build α) :
    (builder.size + 2 ≤ builder.limit ∧ ∃ next, Extends builder next 2 [] ∧
      (do let start ← state; let terminate ← state; further start terminate) builder =
        further builder.size (builder.size + 1) next) ∨
    (builder.limit < builder.size + 2 ∧ ∃ excess next,
      (do let start ← state; let terminate ← state; further start terminate) builder =
        .error (.limit excess) next) := by
  by_cases room : builder.size < builder.limit
  · obtain ⟨middle, first, middleExtends⟩ := state_eq_ok room
    rw [bind_of_ok first]
    have sizeEq := middleExtends.size_eq
    have limitEq := middleExtends.limit_eq
    by_cases room2 : middle.size < middle.limit
    · obtain ⟨next, second, nextExtends⟩ := state_eq_ok room2
      refine Or.inl ⟨by omega, next, middleExtends.trans nextExtends, ?_⟩
      rw [bind_of_ok second, sizeEq]
    · exact Or.inr ⟨by omega, _, middle, bind_of_error (state_eq_error room2)⟩
  · exact Or.inr ⟨by omega, _, builder, bind_of_error (state_eq_error room)⟩

/-- Two new states joined to the others by silent edges, or the limit. -/
theorem frame_cases (builder : Builder) (pairs : Nat → Nat → List (Nat × Nat))
    (sourceLt : ∀ pair ∈ pairs builder.size (builder.size + 1), pair.1 < builder.size + 2)
    (room : ∀ pair ∈ pairs builder.size (builder.size + 1), (builder.wiring pair.1).length +
      (addedAt (silent (pairs builder.size (builder.size + 1))) pair.1).length ≤ 2) :
    let frame : Build Fragment := do
      let start ← state
      let terminate ← state
      silentEdges (pairs start terminate)
      return ⟨start, terminate⟩
    (builder.size + 2 ≤ builder.limit ∧ ∃ next,
      Extends builder next 2 (silent (pairs builder.size (builder.size + 1))) ∧
      frame builder = .ok ⟨builder.size, builder.size + 1⟩ next) ∨
    (builder.limit < builder.size + 2 ∧ ∃ excess next,
      frame builder = .error (.limit excess) next) := by
  rcases two_states_cases builder (fun start terminate => do
      silentEdges (pairs start terminate)
      return (⟨start, terminate⟩ : Fragment)) with ⟨fits, middle, added, run⟩ | failed
  · obtain ⟨next, linked, nextAdded⟩ := @silentEdges_eq_ok middle
      (pairs builder.size (builder.size + 1))
      (fun pair pairMem => by rw [added.size_eq]; exact sourceLt pair pairMem)
      (fun pair pairMem => by
        rw [added.wiring_eq, show addedAt [] pair.1 = [] from rfl, List.append_nil]
        exact room pair pairMem)
    refine Or.inl ⟨fits, next, added.trans nextAdded, ?_⟩
    rw [run, bind_of_ok linked]
    rfl
  · exact Or.inr failed

theorem alternate_eq (first second : Fragment) :
    alternate first second = (do
      let start ← state
      let terminate ← state
      silentEdges [(start, first.start), (start, second.start), (first.terminate, terminate),
        (second.terminate, terminate)]
      return ⟨start, terminate⟩) := by
  simp [alternate, silentEdges]

theorem optional_eq (operand : Fragment) :
    optional operand = (do
      let start ← state
      silentEdges [(start, operand.start), (start, operand.terminate)]
      return ⟨start, operand.terminate⟩) := by
  simp [optional, silentEdges]

theorem kleene_eq (operand : Fragment) :
    kleene operand = (do
      let start ← state
      let terminate ← state
      silentEdges [(operand.terminate, start), (start, operand.start), (start, terminate)]
      return ⟨start, terminate⟩) := by
  simp [kleene, silentEdges]

theorem positive_eq (operand : Fragment) :
    positive operand = (do
      let start ← state
      let terminate ← state
      silentEdges [(start, operand.start), (operand.terminate, start),
        (operand.terminate, terminate)]
      return ⟨start, terminate⟩) := by
  simp [positive, silentEdges]

end Build

/-! ## Operators -/

namespace Builder

/-- The fragment realizes the language among the states of the builder. -/
structure Holds (builder : Builder) (region : Set Nat) (fragment : Fragment)
    (language : Language UInt8) : Prop where
  realizes : Realizes builder.wiring region fragment language
  lt_size : ∀ id ∈ region, id < builder.size

/-- The second builder has `count` further states, keeps the edges outside the region,
and holds the fragment. -/
structure Gains (builder next : Builder) (count : Nat) (region : Set Nat)
    (fragment : Fragment) (language : Language UInt8) : Prop where
  limit_eq : next.limit = builder.limit
  size_eq : next.size = builder.size + count
  keeps : ∀ id, id ∉ region → next.wiring id = builder.wiring id
  holds : next.Holds region fragment language

/-- The action gains a fragment when its states fit under the limit, and otherwise meets
the limit. -/
def Performs (builder : Builder) (action : Build Fragment) (count : Nat)
    (region : Set Nat) (language : Language UInt8) : Prop :=
  (builder.size + count ≤ builder.limit ∧ ∃ fragment next, action builder = .ok fragment next ∧
      Gains builder next count region fragment language) ∨
    (builder.limit < builder.size + count ∧ ∃ excess next,
      action builder = .error (.limit excess) next)

theorem Extends.gains {builder next : Builder} {count : Nat} {added : List (Nat × Edge)}
    {region : Set Nat} {fragment : Fragment} {language : Language UInt8}
    (extends_ : Extends builder next count added) (sourceMem : ∀ pair ∈ added, pair.1 ∈ region)
    (lt : ∀ id ∈ region, id < builder.size + count)
    (realizes : Realizes next.wiring region fragment language) :
    Gains builder next count region fragment language where
  limit_eq := extends_.limit_eq
  size_eq := extends_.size_eq
  keeps id idNotMem := by
    have untouched : addedAt added id = [] := by
      rw [addedAt, List.filter_eq_nil_iff.mpr, List.map_nil]
      intro pair pairMem isId
      rw [beq_iff_eq] at isId
      exact idNotMem (isId ▸ sourceMem pair pairMem)
    rw [extends_.wiring_eq, untouched, List.append_nil]
  holds := ⟨realizes, fun id idMem => extends_.size_eq ▸ lt id idMem⟩

/-- Framing operands by two states takes silent edges between them. -/
theorem performs_frame {builder : Builder} (pairs : Nat → Nat → List (Nat × Nat))
    {action : Build Fragment}
    (eq : action = do
      let start ← Build.state
      let terminate ← Build.state
      Build.silentEdges (pairs start terminate)
      return ⟨start, terminate⟩)
    {region : Set Nat} {language : Language UInt8}
    (sourceLt : ∀ pair ∈ pairs builder.size (builder.size + 1), pair.1 < builder.size + 2)
    (room : ∀ pair ∈ pairs builder.size (builder.size + 1), (builder.wiring pair.1).length +
      (addedAt (Build.silent (pairs builder.size (builder.size + 1))) pair.1).length ≤ 2)
    (gains : ∀ next, Extends builder next 2 (Build.silent (pairs builder.size (builder.size + 1))) →
      Gains builder next 2 region ⟨builder.size, builder.size + 1⟩ language) :
    builder.Performs action 2 region language := by
  subst eq
  rcases Build.frame_cases builder pairs sourceLt room with
    ⟨fits, next, added, run⟩ | failed
  · exact Or.inl ⟨fits, _, next, run, gains next added⟩
  · exact Or.inr failed

theorem performs_symbol (builder : Builder) (byte : UInt8) :
    builder.Performs (Build.symbol byte) 2 {builder.size, builder.size + 1} {[byte]} := by
  rcases Build.two_states_cases builder (fun start terminate => do
      Build.edge start (.symbol byte) terminate
      return (⟨start, terminate⟩ : Fragment)) with
    ⟨room, middle, added, run⟩ | failed
  · have fresh {id : Nat} (le : builder.size ≤ id) : middle.wiring id = [] := by
      rw [added.wiring_eq, wiring_of_le le]
      rfl
    obtain ⟨next, linked, nextAdded⟩ := Build.edge_eq_ok (.symbol byte) (builder.size + 1)
      (show builder.size < middle.size by rw [added.size_eq]; omega)
      (by rw [fresh (Nat.le_refl _)]; exact Nat.zero_lt_two)
    refine Or.inl ⟨room, ⟨builder.size, builder.size + 1⟩, next, ?_, ?_⟩
    · rw [Build.symbol, run, Build.bind_of_ok linked]
      rfl
    · refine (added.trans nextAdded).gains ?_ ?_ ?_
      · simp
      · rintro id (rfl | rfl) <;> omega
      · apply Realizes.symbol (Nat.ne_of_lt (Nat.lt_succ_self _))
        · rw [nextAdded.wiring_eq, fresh (Nat.le_refl _)]
          simp [addedAt]
        · rw [nextAdded.wiring_eq, fresh (Nat.le_succ _)]
          simp [addedAt]
  · exact Or.inr failed

namespace Holds

variable {builder : Builder} {region region2 : Set Nat} {fragment fragment2 : Fragment}
  {language language2 : Language UInt8}

theorem start_lt (holds : builder.Holds region fragment language) :
    fragment.start < builder.size :=
  holds.lt_size _ holds.realizes.start_mem

theorem terminate_lt (holds : builder.Holds region fragment language) :
    fragment.terminate < builder.size :=
  holds.lt_size _ holds.realizes.terminate_mem

theorem notMem_of_le (holds : builder.Holds region fragment language) {id : Nat}
    (le : builder.size ≤ id) : id ∉ region :=
  fun idMem => absurd (holds.lt_size id idMem) (Nat.not_lt.mpr le)

theorem lt_frame (holds : builder.Holds region fragment language) :
    ∀ id ∈ region ∪ {builder.size, builder.size + 1}, id < builder.size + 2 := by
  rintro id (idMem | (rfl | rfl))
  · exact Nat.lt_add_right 2 (holds.lt_size id idMem)
  · omega
  · omega

/-- A fragment stays what it is while the edges of its region are kept. -/
theorem congr {next : Builder} (holds : builder.Holds region fragment language)
    (keeps : ∀ id ∈ region, next.wiring id = builder.wiring id)
    (le : builder.size ≤ next.size) : next.Holds region fragment language where
  realizes := holds.realizes.congr keeps
  lt_size id idMem := Nat.lt_of_lt_of_le (holds.lt_size id idMem) le

theorem performs_concat (first : builder.Holds region fragment language)
    (second : builder.Holds region2 fragment2 language2) (disjoint : Disjoint region region2)
    (fits : builder.size ≤ builder.limit) :
    builder.Performs (Build.concat fragment fragment2) 0 (region ∪ region2)
      (language * language2) := by
  obtain ⟨next, linked, added⟩ := Build.edge_eq_ok .epsilon fragment2.start first.terminate_lt
    (by rw [first.realizes.terminal]; exact Nat.zero_lt_two)
  refine Or.inl ⟨fits, ⟨fragment.start, fragment2.terminate⟩, next, ?_, ?_⟩
  · rw [Build.concat, Build.silentEdge, Build.bind_of_ok linked]
    rfl
  have keeps {id : Nat} (notExit : id ≠ fragment.terminate) :
      next.wiring id = builder.wiring id := by
    rw [added.wiring_eq]
    simp [addedAt, notExit.symm]
  refine added.gains ?_ ?_ ?_
  · rintro pair (_ | _)
    · exact Or.inl first.realizes.terminate_mem
    · contradiction
  · rintro id (idMem | idMem)
    · exact first.lt_size id idMem
    · exact second.lt_size id idMem
  · apply first.realizes.concat second.realizes disjoint
    · exact fun id _ notExit => keeps notExit
    · intro id idMem
      apply keeps
      rintro rfl
      exact Set.disjoint_left.mp disjoint first.realizes.terminate_mem idMem
    · rw [added.wiring_eq, first.realizes.terminal]
      simp [addedAt]

theorem performs_alternate (first : builder.Holds region fragment language)
    (second : builder.Holds region2 fragment2 language2) (disjoint : Disjoint region region2) :
    builder.Performs (Build.alternate fragment fragment2) 2
      (region ∪ region2 ∪ {builder.size, builder.size + 1}) (language + language2) := by
  have firstLt := first.terminate_lt
  have secondLt := second.terminate_lt
  have startEdges : builder.wiring builder.size = [] := wiring_of_le (Nat.le_refl _)
  have exitsNe : fragment.terminate ≠ fragment2.terminate := fun eq =>
    Set.disjoint_left.mp disjoint first.realizes.terminate_mem
      (eq ▸ second.realizes.terminate_mem)
  have firstNe : builder.size ≠ fragment.terminate := by omega
  have secondNe : builder.size ≠ fragment2.terminate := by omega
  apply performs_frame (fun start terminate => [(start, fragment.start),
      (start, fragment2.start), (fragment.terminate, terminate),
      (fragment2.terminate, terminate)]) (Build.alternate_eq _ _)
  · simp
    omega
  · simp [Build.silent, addedAt, startEdges, first.realizes.terminal, second.realizes.terminal,
      exitsNe, exitsNe.symm, firstNe, firstNe.symm, secondNe, secondNe.symm]
  intro next added
  have keeps {id : Nat} (idLt : id < builder.size) (notFirst : id ≠ fragment.terminate)
      (notSecond : id ≠ fragment2.terminate) : next.wiring id = builder.wiring id := by
    rw [added.wiring_eq]
    simp [Build.silent, addedAt, (Nat.ne_of_lt idLt).symm, notFirst.symm, notSecond.symm]
  refine added.gains ?_ ?_ ?_
  · simp [Build.silent, first.realizes.terminate_mem, second.realizes.terminate_mem]
  · rintro id ((idMem | idMem) | idMem)
    · exact first.lt_frame id (Or.inl idMem)
    · exact second.lt_frame id (Or.inl idMem)
    · exact first.lt_frame id (Or.inr idMem)
  · apply first.realizes.alternate second.realizes
    · intro id idMem notExit
      refine keeps (first.lt_size id idMem) notExit ?_
      rintro rfl
      exact Set.disjoint_left.mp disjoint idMem second.realizes.terminate_mem
    · intro id idMem notExit
      refine keeps (second.lt_size id idMem) ?_ notExit
      rintro rfl
      exact Set.disjoint_left.mp disjoint first.realizes.terminate_mem idMem
    · rw [added.wiring_eq, startEdges]
      simp [Build.silent, addedAt, firstNe.symm, secondNe.symm]
    · rw [added.wiring_eq, wiring_of_le (Nat.le_succ _)]
      have firstNe2 : builder.size + 1 ≠ fragment.terminate := by omega
      have secondNe2 : builder.size + 1 ≠ fragment2.terminate := by omega
      simp [Build.silent, addedAt, firstNe2.symm, secondNe2.symm]
    · rw [added.wiring_eq, first.realizes.terminal]
      simp [Build.silent, addedAt, firstNe, exitsNe.symm]
    · rw [added.wiring_eq, second.realizes.terminal]
      simp [Build.silent, addedAt, secondNe, exitsNe]
    · exact disjoint
    · rintro (sizeMem | sizeMem)
      · exact first.notMem_of_le (Nat.le_refl _) sizeMem
      · exact second.notMem_of_le (Nat.le_refl _) sizeMem
    · rintro (sizeMem | sizeMem)
      · exact first.notMem_of_le (Nat.le_succ _) sizeMem
      · exact second.notMem_of_le (Nat.le_succ _) sizeMem
    · exact Nat.ne_of_lt (Nat.lt_succ_self _)

theorem performs_optional (operand : builder.Holds region fragment language) :
    builder.Performs (Build.optional fragment) 1 (region ∪ {builder.size}) (1 + language) := by
  by_cases room : builder.size < builder.limit
  · obtain ⟨middle, new, stateAdded⟩ := Build.state_eq_ok room
    have startEdges : middle.wiring builder.size = [] := by
      rw [stateAdded.wiring_eq, wiring_of_le (Nat.le_refl _)]
      rfl
    obtain ⟨next, linked, edgesAdded⟩ := @Build.silentEdges_eq_ok middle
      [(builder.size, fragment.start), (builder.size, fragment.terminate)]
      (by simp [stateAdded.size_eq]) (by simp [startEdges, Build.silent, addedAt])
    have added := stateAdded.trans edgesAdded
    refine Or.inl ⟨room, ⟨builder.size, fragment.terminate⟩, next, ?_, ?_⟩
    · rw [Build.optional_eq, Build.bind_of_ok new, Build.bind_of_ok linked]
      rfl
    refine added.gains ?_ ?_ ?_
    · simp [Build.silent]
    · rintro id (idMem | rfl)
      · exact Nat.lt_succ_of_lt (operand.lt_size id idMem)
      · exact Nat.lt_succ_self _
    · apply operand.realizes.optional
      · intro id idMem
        rw [added.wiring_eq]
        simp [Build.silent, addedAt, (Nat.ne_of_lt (operand.lt_size id idMem)).symm]
      · rw [edgesAdded.wiring_eq, startEdges]
        simp [Build.silent, addedAt]
      · exact operand.notMem_of_le (Nat.le_refl _)
  · exact Or.inr ⟨by omega, _, builder, Build.bind_of_error (Build.state_eq_error room)⟩

theorem performs_kleene (operand : builder.Holds region fragment language) :
    builder.Performs (Build.kleene fragment) 2 (region ∪ {builder.size, builder.size + 1})
      language∗ := by
  have exitLt := operand.terminate_lt
  have startEdges : builder.wiring builder.size = [] := wiring_of_le (Nat.le_refl _)
  have exitNe : builder.size ≠ fragment.terminate := by omega
  apply performs_frame (fun start terminate => [(fragment.terminate, start),
      (start, fragment.start), (start, terminate)]) (Build.kleene_eq _)
  · simp
    omega
  · simp [Build.silent, addedAt, startEdges, operand.realizes.terminal, exitNe, exitNe.symm]
  intro next added
  refine added.gains ?_ operand.lt_frame ?_
  · simp [Build.silent, operand.realizes.terminate_mem]
  · apply operand.realizes.kleene
    · intro id idMem notExit
      rw [added.wiring_eq]
      simp [Build.silent, addedAt, (Nat.ne_of_lt (operand.lt_size id idMem)).symm, notExit.symm]
    · rw [added.wiring_eq, startEdges]
      simp [Build.silent, addedAt, exitNe.symm]
    · rw [added.wiring_eq, wiring_of_le (Nat.le_succ _)]
      have exitNe2 : builder.size + 1 ≠ fragment.terminate := by omega
      simp [Build.silent, addedAt, exitNe2.symm]
    · rw [added.wiring_eq, operand.realizes.terminal]
      simp [Build.silent, addedAt, exitNe]
    · exact operand.notMem_of_le (Nat.le_refl _)
    · exact operand.notMem_of_le (Nat.le_succ _)
    · exact Nat.ne_of_lt (Nat.lt_succ_self _)

theorem performs_positive (operand : builder.Holds region fragment language) :
    builder.Performs (Build.positive fragment) 2 (region ∪ {builder.size, builder.size + 1})
      (language * language∗) := by
  have exitLt := operand.terminate_lt
  have startEdges : builder.wiring builder.size = [] := wiring_of_le (Nat.le_refl _)
  have exitNe : builder.size ≠ fragment.terminate := by omega
  apply performs_frame (fun start terminate => [(start, fragment.start),
      (fragment.terminate, start), (fragment.terminate, terminate)]) (Build.positive_eq _)
  · simp
    omega
  · simp [Build.silent, addedAt, startEdges, operand.realizes.terminal, exitNe, exitNe.symm]
  intro next added
  refine added.gains ?_ operand.lt_frame ?_
  · simp [Build.silent, operand.realizes.terminate_mem]
  · apply operand.realizes.positive
    · intro id idMem notExit
      rw [added.wiring_eq]
      simp [Build.silent, addedAt, (Nat.ne_of_lt (operand.lt_size id idMem)).symm, notExit.symm]
    · rw [added.wiring_eq, startEdges]
      simp [Build.silent, addedAt, exitNe.symm]
    · rw [added.wiring_eq, wiring_of_le (Nat.le_succ _)]
      have exitNe2 : builder.size + 1 ≠ fragment.terminate := by omega
      simp [Build.silent, addedAt, exitNe2.symm]
    · rw [added.wiring_eq, operand.realizes.terminal]
      simp [Build.silent, addedAt, exitNe]
    · exact operand.notMem_of_le (Nat.le_refl _)
    · exact operand.notMem_of_le (Nat.le_succ _)
    · exact Nat.ne_of_lt (Nat.lt_succ_self _)

end Holds

end Builder

end ByteSignature.Nfa

namespace ByteSignature

open Nfa

/-! ## Patterns -/

namespace Pattern

/-- The number of states that a pattern takes. -/
def stateCount : Pattern → Nat
  | symbol _ => 2
  | concat first second => first.stateCount + second.stateCount
  | alternate first second => first.stateCount + second.stateCount + 2
  | optional operand => operand.stateCount + 1
  | kleene operand => operand.stateCount + 2
  | positive operand => operand.stateCount + 2

end Pattern

namespace Nfa.Builder

variable {builder : Builder} {count count2 : Nat} {region region2 : Set Nat}
  {language language2 : Language UInt8}

theorem Gains.trans {middle next : Builder} {fragment fragment2 : Fragment}
    (first : Gains builder middle count region fragment language)
    (second : Gains middle next count2 region2 fragment2 language2)
    (subset : region ⊆ region2) :
    Gains builder next (count + count2) region2 fragment2 language2 where
  limit_eq := second.limit_eq.trans first.limit_eq
  size_eq := by rw [second.size_eq, first.size_eq, Nat.add_assoc]
  keeps id idNotMem := by
    rw [second.keeps id idNotMem, first.keeps id fun idMem => idNotMem (subset idMem)]
  holds := second.holds

/-- An operator performs on whatever its operand gains. -/
theorem Performs.bind {action : Build Fragment} {operator : Fragment → Build Fragment}
    (operand : builder.Performs action count region language) (subset : region ⊆ region2)
    (further : ∀ fragment middle, Gains builder middle count region fragment language →
      middle.size ≤ middle.limit → middle.Performs (operator fragment) count2 region2 language2) :
    builder.Performs (action >>= operator) (count + count2) region2 language2 := by
  rcases operand with ⟨fits, fragment, middle, run, gains⟩ | ⟨full, excess, next, run⟩
  · have sizeEq := gains.size_eq
    have limitEq := gains.limit_eq
    rcases further fragment middle gains (by omega) with
      ⟨fits2, fragment2, next, run2, gains2⟩ | ⟨full, excess, next, run2⟩
    · refine Or.inl ⟨by omega, fragment2, next, ?_, gains.trans gains2 subset⟩
      rw [Build.bind_of_ok run, run2]
    · refine Or.inr ⟨by omega, excess, next, ?_⟩
      rw [Build.bind_of_ok run, run2]
  · exact Or.inr ⟨by omega, excess, next, Build.bind_of_error run⟩

/-- An operand keeps its fragment while another is built next to it. -/
theorem Gains.holds_of_disjoint {middle next : Builder} {fragment fragment2 : Fragment}
    (first : Gains builder middle count region fragment language)
    (second : Gains middle next count2 region2 fragment2 language2)
    (disjoint : Disjoint region region2) : next.Holds region fragment language := by
  refine first.holds.congr (fun id idMem => ?_) ?_
  · exact second.keeps id (Set.disjoint_left.mp disjoint idMem)
  · rw [second.size_eq]
    exact Nat.le_add_right _ _

/-! ## Regions -/

/-- The numbers that further states get. -/
def newStates (builder : Builder) (count : Nat) : Set Nat :=
  Set.Ico builder.size (builder.size + count)

theorem newStates_subset {builder middle : Builder} {count count2 : Nat}
    (le : builder.size ≤ middle.size)
    (le2 : middle.size + count2 ≤ builder.size + count) :
    middle.newStates count2 ⊆ builder.newStates count :=
  Set.Ico_subset_Ico le le2

/-- The states of an operand and those added behind it. -/
theorem newStates_add {builder next : Builder} (sizeEq : next.size = builder.size + count) :
    builder.newStates (count + count2) = builder.newStates count ∪ next.newStates count2 := by
  ext id
  simp only [newStates, Set.mem_Ico, Set.mem_union]
  omega

theorem disjoint_newStates {builder next : Builder} (le : builder.size + count ≤ next.size) :
    Disjoint (builder.newStates count) (next.newStates count2) := by
  rw [Set.disjoint_left]
  intro id idMem idMem2
  exact absurd (le.trans idMem2.1) (Nat.not_le.mpr idMem.2)

theorem newStates_one (builder : Builder) : builder.newStates 1 = {builder.size} := by
  ext id
  simp only [newStates, Set.mem_Ico, Set.mem_singleton_iff]
  omega

theorem newStates_two (builder : Builder) :
    builder.newStates 2 = {builder.size, builder.size + 1} := by
  ext id
  simp only [newStates, Set.mem_Ico, Set.mem_insert_iff, Set.mem_singleton_iff]
  omega

end Nfa.Builder

namespace Pattern

/-- Building a pattern succeeds exactly when its states fit under the limit, and then its
fragment realizes its language among the new states. -/
theorem performs_build (pattern : Pattern) {builder : Builder}
    (fits : builder.size ≤ builder.limit) :
    builder.Performs pattern.build pattern.stateCount
      (builder.newStates pattern.stateCount) pattern.language := by
  induction pattern generalizing builder with
  | symbol byte =>
      rw [stateCount, Builder.newStates_two]
      exact Builder.performs_symbol builder byte
  | concat first second ih ih2 =>
      rw [stateCount, build, ← Nat.add_zero second.stateCount]
      refine (ih fits).bind (Builder.newStates_subset (Nat.le_refl _) (by omega)) ?_
      intro fragment middle gains middleFits
      have sizeEq := gains.size_eq
      refine (ih2 middleFits).bind (Builder.newStates_subset (by omega) (by omega)) ?_
      intro fragment2 next gains2 nextFits
      have disjoint := @Builder.disjoint_newStates first.stateCount second.stateCount builder
        middle (Nat.le_of_eq sizeEq.symm)
      rw [Nat.add_zero, Builder.newStates_add sizeEq]
      exact (gains.holds_of_disjoint gains2 disjoint).performs_concat gains2.holds disjoint
        nextFits
  | alternate first second ih ih2 =>
      rw [stateCount, build, Nat.add_assoc]
      refine (ih fits).bind (Builder.newStates_subset (Nat.le_refl _) (by omega)) ?_
      intro fragment middle gains middleFits
      have sizeEq := gains.size_eq
      refine (ih2 middleFits).bind (Builder.newStates_subset (by omega) (by omega)) ?_
      intro fragment2 next gains2 nextFits
      have disjoint := @Builder.disjoint_newStates first.stateCount second.stateCount builder
        middle (Nat.le_of_eq sizeEq.symm)
      rw [Builder.newStates_add sizeEq, Builder.newStates_add gains2.size_eq, ← Set.union_assoc,
        Builder.newStates_two]
      exact (gains.holds_of_disjoint gains2 disjoint).performs_alternate gains2.holds disjoint
  | optional operand ih =>
      rw [stateCount, build]
      refine (ih fits).bind (Builder.newStates_subset (Nat.le_refl _) (by omega)) ?_
      intro fragment next gains nextFits
      rw [Builder.newStates_add gains.size_eq, Builder.newStates_one]
      exact gains.holds.performs_optional
  | kleene operand ih =>
      rw [stateCount, build]
      refine (ih fits).bind (Builder.newStates_subset (Nat.le_refl _) (by omega)) ?_
      intro fragment next gains nextFits
      rw [Builder.newStates_add gains.size_eq, Builder.newStates_two]
      exact gains.holds.performs_kleene
  | positive operand ih =>
      rw [stateCount, build]
      refine (ih fits).bind (Builder.newStates_subset (Nat.le_refl _) (by omega)) ?_
      intro fragment next gains nextFits
      rw [Builder.newStates_add gains.size_eq, Builder.newStates_two]
      exact gains.holds.performs_positive

/-- From nothing, all states belong to the fragment. -/
theorem build_empty_cases (pattern : Pattern) (limit : Nat) :
    (pattern.stateCount ≤ limit ∧ ∃ fragment builder,
      pattern.build (.empty limit) = .ok fragment builder ∧
        builder.size = pattern.stateCount ∧
        builder.Holds {id | id < builder.size} fragment pattern.language) ∨
    (limit < pattern.stateCount ∧ ∃ excess builder,
      pattern.build (.empty limit) = .error (.limit excess) builder) := by
  have sizeEq : (Builder.empty limit).size = 0 := rfl
  have limitEq : (Builder.empty limit).limit = limit := rfl
  have room : (Builder.empty limit).size ≤ (Builder.empty limit).limit := limit.zero_le
  have performs := pattern.performs_build room
  rw [Builder.Performs, sizeEq, limitEq, Nat.zero_add] at performs
  rcases performs with ⟨fits, fragment, builder, run, gains⟩ | failed
  · have builderSize := gains.size_eq
    rw [sizeEq, Nat.zero_add] at builderSize
    have whole : (Builder.empty limit).newStates pattern.stateCount =
        {id | id < builder.size} := by
      ext id
      simp [Builder.newStates, sizeEq, builderSize]
    exact Or.inl ⟨fits, fragment, builder, run, builderSize, whole ▸ gains.holds⟩
  · exact Or.inr failed

end Pattern

end ByteSignature
