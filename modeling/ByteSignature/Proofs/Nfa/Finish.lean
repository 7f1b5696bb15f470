import ByteSignature.Proofs.Graph.Discovery
import ByteSignature.Proofs.Graph.Numbering
import ByteSignature.Proofs.Nfa.Build

/-!
# Finishing automata

A finished automaton is the builder's graph around a fragment, renumbered by discovery.
Its paths between two states that the entry reaches are those of the builder, so it reads
exactly what the builder's paths from the entry to the exit spell.
-/

namespace ByteSignature.Nfa

namespace Builder

/-- Every edge leads to a state. -/
def Wired (builder : Builder) : Prop :=
  ∀ id, ∀ edge ∈ builder.wiring id, edge.target < builder.size

/-- The states that the entry of a fragment reaches, in the order of their discovery. -/
def reached (builder : Builder) (fragment : Fragment) : List Nat :=
  Graph.discover (targetsAt builder.states) builder.states.size [fragment.start]

/-- The states that a fragment keeps: those its entry reaches, and its exit. -/
def kept (builder : Builder) (fragment : Fragment) : List Nat :=
  let reached := builder.reached fragment
  if reached.contains fragment.terminate then reached else reached ++ [fragment.terminate]

/-- An edge between kept states, renumbered. -/
def renumber (builder : Builder) (fragment : Fragment) (edge : Edge) : Option Edge :=
  (positions (builder.kept fragment))[edge.target]?.map fun target => { edge with target }

variable {builder : Builder} {fragment : Fragment}

/-- A fragment of all states is closed. -/
theorem Holds.wired {region : Set Nat} {language : Language UInt8}
    (holds : builder.Holds region fragment language)
    (whole : ∀ id < builder.size, id ∈ region) : builder.Wired := by
  intro id edge edgeMem
  by_cases idLt : id < builder.size
  · exact holds.lt_size _ (holds.realizes.closed id (whole id idLt) edge edgeMem)
  · rw [wiring_of_le (Nat.not_lt.mp idLt)] at edgeMem
    cases edgeMem

theorem bounded_targetsAt (wired : builder.Wired) :
    Graph.Bounded (targetsAt builder.states) builder.size := by
  intro id _ target targetMem
  rcases List.mem_map.mp targetMem with ⟨edge, edgeMem, rfl⟩
  exact wired id edge edgeMem

theorem exists_path_of_reaches {source target : Nat}
    (reaches : Graph.Reaches (targetsAt builder.states) source target) :
    ∃ input, Path builder.wiring source input target := by
  induction reaches with
  | refl => exact ⟨[], .stay source⟩
  | tail _ last ih =>
      rcases ih with ⟨input, path⟩
      rcases List.mem_map.mp last with ⟨edge, edgeMem, rfl⟩
      exact ⟨input ++ edge.label.bytes, path.append (.single edgeMem)⟩

theorem reaches_of_path {source target : Nat} {input : List UInt8}
    (path : Path builder.wiring source input target) :
    Graph.Reaches (targetsAt builder.states) source target := by
  induction path with
  | stay => exact .refl
  | step edgeMem _ ih => exact .head (List.mem_map_of_mem edgeMem) ih

theorem kept_of_mem_reached (exitReached : fragment.terminate ∈ builder.reached fragment) :
    builder.kept fragment = builder.reached fragment :=
  if_pos (List.contains_iff_mem.mpr exitReached)

theorem kept_of_notMem_reached (notReached : fragment.terminate ∉ builder.reached fragment) :
    builder.kept fragment = builder.reached fragment ++ [fragment.terminate] :=
  if_neg (mt List.contains_iff_mem.mp notReached)

theorem nodup_reached : (builder.reached fragment).Nodup :=
  Graph.nodup_discover _ _ _

theorem nodup_kept : (builder.kept fragment).Nodup := by
  by_cases exitReached : fragment.terminate ∈ builder.reached fragment
  · rw [kept_of_mem_reached exitReached]
    exact nodup_reached
  · rw [kept_of_notMem_reached exitReached, List.nodup_append_comm]
    exact List.nodup_cons.mpr ⟨exitReached, nodup_reached⟩

/-- The entry is discovered first. -/
theorem getElem?_reached_zero : (builder.reached fragment)[0]? = some fragment.start := by
  rw [← List.head?_eq_getElem?]
  exact Graph.head?_discover _ _

/-- States are kept where they are discovered. -/
theorem getElem?_kept_of_getElem?_reached {index id : Nat}
    (placed : (builder.reached fragment)[index]? = some id) :
    (builder.kept fragment)[index]? = some id := by
  by_cases exitReached : fragment.terminate ∈ builder.reached fragment
  · rw [kept_of_mem_reached exitReached, placed]
  · have inside := (List.getElem?_eq_some_iff.mp placed).1
    rw [kept_of_notMem_reached exitReached, List.getElem?_append_left inside, placed]

/-- The entry becomes state 0. -/
theorem getElem?_kept_zero : (builder.kept fragment)[0]? = some fragment.start :=
  getElem?_kept_of_getElem?_reached getElem?_reached_zero

theorem mem_kept_iff_mem_reached {id : Nat} :
    id ∈ builder.kept fragment ↔ id ∈ builder.reached fragment ∨ id = fragment.terminate := by
  by_cases exitReached : fragment.terminate ∈ builder.reached fragment
  · rw [kept_of_mem_reached exitReached]
    constructor
    · exact Or.inl
    · rintro (idReached | rfl)
      · exact idReached
      · exact exitReached
  · rw [kept_of_notMem_reached exitReached, List.mem_append, List.mem_singleton]

section Kept

variable (wired : builder.Wired) (startLt : fragment.start < builder.size)

include wired startLt

theorem mem_reached_iff {id : Nat} : id ∈ builder.reached fragment ↔
    ∃ input, Path builder.wiring fragment.start input id := by
  have seedsLt : ∀ seed ∈ [fragment.start], seed < builder.size := by simpa
  constructor
  · intro idMem
    obtain ⟨seed, seedMem, reaches⟩ :=
      (Graph.mem_discover_iff (bounded_targetsAt wired) seedsLt).mp idMem
    rw [List.mem_singleton] at seedMem
    exact exists_path_of_reaches (seedMem ▸ reaches)
  · rintro ⟨input, path⟩
    exact (Graph.mem_discover_iff (bounded_targetsAt wired) seedsLt).mpr
      ⟨fragment.start, List.mem_singleton_self _, reaches_of_path path⟩

theorem mem_kept_iff {id : Nat} : id ∈ builder.kept fragment ↔
    (∃ input, Path builder.wiring fragment.start input id) ∨ id = fragment.terminate := by
  rw [← mem_reached_iff wired startLt, mem_kept_iff_mem_reached]

theorem lt_of_mem_kept (terminateLt : fragment.terminate < builder.size) {id : Nat}
    (idMem : id ∈ builder.kept fragment) : id < builder.size := by
  rcases (mem_kept_iff wired startLt).mp idMem with ⟨input, path⟩ | rfl
  · exact (reaches_of_path path).lt (bounded_targetsAt wired) startLt
  · exact terminateLt

end Kept

theorem renumber_eq_some_iff {edge new : Edge} : builder.renumber fragment edge = some new ↔
    new.label = edge.label ∧ (builder.kept fragment)[new.target]? = some edge.target := by
  rcases new with ⟨label, target⟩
  rw [renumber, positions, Option.map_eq_some_iff]
  simp only [getElem?_ofList_zipIdx nodup_kept]
  constructor
  · rintro ⟨place, placed, eq⟩
    cases eq
    exact ⟨rfl, placed⟩
  · rintro ⟨rfl, placed⟩
    exact ⟨target, placed, rfl⟩

/-- The states of the finished automaton. -/
def keptStates (builder : Builder) (fragment : Fragment) : Array State :=
  ((builder.kept fragment).map fun id =>
    (builder.states.getD id .isolated).filterMap (builder.renumber fragment)).toArray

theorem size_keptStates : (builder.keptStates fragment).size = (builder.kept fragment).length := by
  simp [keptStates]

theorem edgesAt_keptStates {index id : Nat}
    (placed : (builder.kept fragment)[index]? = some id) :
    edgesAt (builder.keptStates fragment) index =
      (builder.wiring id).filterMap (builder.renumber fragment) := by
  have edges : (builder.states.getD id .isolated).edges = builder.wiring id := by
    rw [wiring, edgesAt, Array.getD_eq_getD_getElem?]
    cases builder.states[id]? <;> rfl
  simp only [edgesAt, keptStates, List.getElem?_toArray, List.getElem?_map, placed,
    Option.map_some]
  rw [← edges]
  rfl

theorem finish?_eq (builder : Builder) (fragment : Fragment) :
    builder.finish? fragment =
      if ((builder.kept fragment).all fun id => id < builder.states.size) &&
          (targetsAt builder.states fragment.terminate).all fun id =>
            id < builder.states.size then
        Nfa.ofParts? (builder.keptStates fragment) 0
          ((positions (builder.kept fragment)).getD fragment.terminate 0)
      else
        none :=
  rfl

/-- The automaton has the kept states, of which the first is the start and the exit is the
accepting state. -/
structure Renumbers (builder : Builder) (fragment : Fragment) (nfa : Nfa) : Prop where
  start_eq : nfa.start = 0
  states_eq : nfa.states = builder.keptStates fragment
  exitPlaced : (builder.kept fragment)[nfa.terminate]? = some fragment.terminate

theorem Renumbers.edges_eq {nfa : Nfa} (renumbers : builder.Renumbers fragment nfa) :
    nfa.edges = edgesAt (builder.keptStates fragment) := by
  funext id
  rw [Nfa.edges, renumbers.states_eq]

theorem Renumbers.size_eq {nfa : Nfa} (renumbers : builder.Renumbers fragment nfa) :
    nfa.size = (builder.kept fragment).length := by
  rw [Nfa.size, renumbers.states_eq, size_keptStates]

/-- Every state but the start and the accepting one is the target of an edge. -/
theorem Renumbers.exists_edge {nfa : Nfa} (renumbers : builder.Renumbers fragment nfa) {id : Nat}
    (idLt : id < nfa.size) (pos : 0 < id) (notExit : id ≠ nfa.terminate) :
    ∃ source < nfa.size, ∃ edge ∈ nfa.edges source, edge.target = id := by
  rw [renumbers.size_eq] at idLt ⊢
  obtain ⟨state, placed⟩ : ∃ state, (builder.kept fragment)[id]? = some state :=
    ⟨_, List.getElem?_eq_getElem idLt⟩
  have stateReached : state ∈ builder.reached fragment := by
    rcases mem_kept_iff_mem_reached.mp (List.mem_of_getElem? placed) with isReached | rfl
    · exact isReached
    · exact absurd (index_eq_of_getElem? nodup_kept placed renumbers.exitPlaced) notExit
  rcases Graph.mem_or_exists_source_of_mem_discover stateReached with
    isStart | ⟨source, sourceReached, leads⟩
  · rw [List.mem_singleton.mp isStart] at placed
    have isFirst := index_eq_of_getElem? nodup_kept placed getElem?_kept_zero
    exact absurd isFirst (Nat.ne_of_gt pos)
  · obtain ⟨index, sourcePlaced⟩ := List.mem_iff_getElem?.mp sourceReached
    have sourceKept := getElem?_kept_of_getElem?_reached sourcePlaced
    obtain ⟨edge, edgeMem, target_eq⟩ := List.mem_map.mp leads
    refine ⟨index, (List.getElem?_eq_some_iff.mp sourceKept).1, ⟨edge.label, id⟩, ?_, rfl⟩
    rw [renumbers.edges_eq, edgesAt_keptStates sourceKept]
    exact List.mem_filterMap.mpr
      ⟨edge, edgeMem, renumber_eq_some_iff.mpr ⟨rfl, target_eq ▸ placed⟩⟩

/-- A fragment of a builder whose edges lead to states can be finished. -/
theorem exists_finish?_eq_some (wired : builder.Wired) (startLt : fragment.start < builder.size)
    (terminateLt : fragment.terminate < builder.size) :
    ∃ nfa, builder.finish? fragment = some nfa ∧ builder.Renumbers fragment nfa := by
  obtain ⟨exit, placed⟩ := List.mem_iff_getElem?.mp
    ((mem_kept_iff wired startLt).mpr (Or.inr rfl))
  have exitEq : (positions (builder.kept fragment)).getD fragment.terminate 0 = exit :=
    getD_ofList_zipIdx nodup_kept placed 0
  have fits : 0 < (builder.keptStates fragment).size ∧
      exit < (builder.keptStates fragment).size ∧
      ∀ state ∈ builder.keptStates fragment, ∀ edge ∈ state.edges,
        edge.target < (builder.keptStates fragment).size := by
    rw [size_keptStates]
    refine ⟨(List.getElem?_eq_some_iff.mp getElem?_kept_zero).1,
      (List.getElem?_eq_some_iff.mp placed).1, ?_⟩
    intro state stateMem edge edgeMem
    simp only [keptStates, List.mem_toArray, List.mem_map] at stateMem
    rcases stateMem with ⟨id, _, rfl⟩
    rcases List.mem_filterMap.mp edgeMem with ⟨old, _, renumbered⟩
    exact (List.getElem?_eq_some_iff.mp (renumber_eq_some_iff.mp renumbered).2).1
  have checks : (((builder.kept fragment).all fun id => id < builder.states.size) &&
      (targetsAt builder.states fragment.terminate).all fun id =>
        id < builder.states.size) = true := by
    rw [Bool.and_eq_true, List.all_eq_true, List.all_eq_true]
    constructor
    · intro id idMem
      exact decide_eq_true (lt_of_mem_kept wired startLt terminateLt idMem)
    · intro id idMem
      exact decide_eq_true (bounded_targetsAt wired _ terminateLt id idMem)
  rw [finish?_eq, if_pos checks, exitEq, Nfa.ofParts?, dif_pos fits]
  exact ⟨_, rfl, rfl, rfl, placed⟩

/-- A fragment that is finished is renumbered, whatever its edges. -/
theorem renumbers_of_finish? {nfa : Nfa} (finished : builder.finish? fragment = some nfa) :
    builder.Renumbers fragment nfa := by
  have exitKept : fragment.terminate ∈ builder.kept fragment :=
    mem_kept_iff_mem_reached.mpr (.inr rfl)
  obtain ⟨exit, placed⟩ := List.mem_iff_getElem?.mp exitKept
  have exitEq : (positions (builder.kept fragment)).getD fragment.terminate 0 = exit :=
    getD_ofList_zipIdx nodup_kept placed 0
  rw [finish?_eq, exitEq, Nfa.ofParts?] at finished
  split at finished
  · split at finished
    · cases finished
      exact ⟨rfl, rfl, placed⟩
    · cases finished
  · cases finished

/-! ## Paths -/

/-- The paths of a finished automaton are paths of the builder. -/
theorem exists_path_of_keptStates {source target id : Nat} {input : List UInt8}
    (path : Path (edgesAt (builder.keptStates fragment)) source input target)
    (placed : (builder.kept fragment)[source]? = some id) :
    ∃ last, (builder.kept fragment)[target]? = some last ∧ Path builder.wiring id input last := by
  induction path generalizing id with
  | stay => exact ⟨id, placed, .stay id⟩
  | step edgeMem _ ih =>
      rw [edgesAt_keptStates placed] at edgeMem
      rcases List.mem_filterMap.mp edgeMem with ⟨old, oldMem, renumbered⟩
      rcases renumber_eq_some_iff.mp renumbered with ⟨labelEq, targetPlaced⟩
      obtain ⟨last, lastPlaced, path⟩ := ih targetPlaced
      refine ⟨last, lastPlaced, ?_⟩
      rw [labelEq]
      exact .step oldMem path

/-- The builder's paths from a state that the entry reaches are paths of the finished
automaton. -/
theorem exists_keptStates_path (wired : builder.Wired) (startLt : fragment.start < builder.size)
    {id target index : Nat} {input : List UInt8} (path : Path builder.wiring id input target)
    (reached : ∃ before, Path builder.wiring fragment.start before id)
    (placed : (builder.kept fragment)[index]? = some id) :
    ∃ last, (builder.kept fragment)[last]? = some target ∧
      Path (edgesAt (builder.keptStates fragment)) index input last := by
  induction path generalizing index with
  | stay => exact ⟨index, placed, .stay index⟩
  | @step source target edge rest edgeMem _ ih =>
      rcases reached with ⟨before, beforePath⟩
      have reachedNext : ∃ before, Path builder.wiring fragment.start before edge.target :=
        ⟨_, beforePath.append (.single edgeMem)⟩
      obtain ⟨next, nextPlaced⟩ := List.mem_iff_getElem?.mp
        ((mem_kept_iff wired startLt).mpr (Or.inl reachedNext))
      obtain ⟨last, lastPlaced, path⟩ := ih reachedNext nextPlaced
      refine ⟨last, lastPlaced, ?_⟩
      have newMem : (⟨edge.label, next⟩ : Edge) ∈
          edgesAt (builder.keptStates fragment) index := by
        rw [edgesAt_keptStates placed]
        exact List.mem_filterMap.mpr ⟨edge, edgeMem, renumber_eq_some_iff.mpr ⟨rfl, nextPlaced⟩⟩
      exact (Path.single newMem).append path

/-- From a state that the entry reaches, the paths of a finished automaton are those of the
builder between the states that were renumbered. -/
theorem Renumbers.path_iff {nfa : Nfa} (renumbers : builder.Renumbers fragment nfa)
    (wired : builder.Wired) (startLt : fragment.start < builder.size) {source target : Nat}
    {id last : Nat} (reached : ∃ before, Path builder.wiring fragment.start before id)
    (sourcePlaced : (builder.kept fragment)[source]? = some id)
    (targetPlaced : (builder.kept fragment)[target]? = some last) (input : List UInt8) :
    Path nfa.edges source input target ↔ Path builder.wiring id input last := by
  rw [renumbers.edges_eq]
  constructor
  · intro path
    obtain ⟨other, otherPlaced, path⟩ := exists_path_of_keptStates path sourcePlaced
    rw [targetPlaced, Option.some.injEq] at otherPlaced
    rwa [otherPlaced]
  · intro path
    obtain ⟨other, otherPlaced, path⟩ :=
      exists_keptStates_path wired startLt path reached sourcePlaced
    rwa [index_eq_of_getElem? nodup_kept targetPlaced otherPlaced]

/-- A finished automaton reads what the builder's paths from the entry to the exit spell. -/
theorem path_iff_of_finish? {nfa : Nfa} (wired : builder.Wired)
    (startLt : fragment.start < builder.size) (terminateLt : fragment.terminate < builder.size)
    (finished : builder.finish? fragment = some nfa) (input : List UInt8) :
    Path nfa.edges nfa.start input nfa.terminate ↔
      Path builder.wiring fragment.start input fragment.terminate := by
  obtain ⟨nfa2, finished2, renumbers⟩ := exists_finish?_eq_some wired startLt terminateLt
  rw [finished, Option.some.injEq] at finished2
  rw [finished2, renumbers.start_eq]
  exact renumbers.path_iff wired startLt ⟨[], .stay _⟩ getElem?_kept_zero renumbers.exitPlaced
    input

end Builder

end ByteSignature.Nfa

namespace ByteSignature.Nfa

open Builder

/-- The automaton reads exactly a language, and whatever it has read can be completed to
a word of it. -/
structure Recognizes (nfa : Nfa) (language : Language UInt8) : Prop where
  path_iff : ∀ input, Path nfa.edges nfa.start input nfa.terminate ↔ input ∈ language
  live : ∀ {id input}, Path nfa.edges nfa.start input id →
    ∃ rest, Path nfa.edges id rest nfa.terminate

/-- Finishing a realized fragment gives an automaton for its language. -/
theorem exists_finish?_of_holds {builder : Builder} {fragment : Fragment}
    {region : Set Nat} {language : Language UInt8}
    (holds : builder.Holds region fragment language) (wired : builder.Wired) :
    ∃ nfa, builder.finish? fragment = some nfa ∧ nfa.Recognizes language ∧
      nfa.size ≤ builder.size := by
  have realizes := holds.realizes
  have startLt := holds.start_lt
  obtain ⟨nfa, finished, renumbers⟩ := exists_finish?_eq_some wired startLt holds.terminate_lt
  refine ⟨nfa, finished, ⟨?_, ?_⟩, ?_⟩
  · intro input
    rw [← realizes.path_iff input]
    exact path_iff_of_finish? wired startLt holds.terminate_lt finished input
  · intro id input path
    rw [renumbers.edges_eq, renumbers.start_eq] at path
    obtain ⟨old, oldPlaced, oldPath⟩ := exists_path_of_keptStates path getElem?_kept_zero
    have oldMem := Path.mem_of_closed realizes.closed oldPath realizes.start_mem
    obtain ⟨rest, restPath⟩ := realizes.live old oldMem
    exact ⟨rest, (renumbers.path_iff wired startLt ⟨input, oldPath⟩ oldPlaced
      renumbers.exitPlaced rest).mpr restPath⟩
  · rw [renumbers.size_eq]
    apply Graph.length_le_of_forall_lt nodup_kept
    intro id idMem
    exact lt_of_mem_kept wired startLt holds.terminate_lt idMem

end ByteSignature.Nfa
