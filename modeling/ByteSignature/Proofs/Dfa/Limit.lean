import ByteSignature.Proofs.Dfa.Subset
import ByteSignature.Proofs.Graph.Numbering
import Mathlib.Data.Set.Card
import Mathlib.Order.Interval.Set.Nat

/-!
# How many states subset construction makes

Reading bytes from the start of a nondeterministic automaton, one meets sets of live states.
Subset construction makes one state for each set that can be met, and no other.  So its limit
only decides whether it ends: every limit that leaves room for these sets gives the same
automaton, and every other one is passed by the first set it has no room for.
-/

namespace ByteSignature

namespace Nfa

variable {nfa : Nfa}

/-! ## Sets that can be met -/

/-- What silent edges lead to from some states, those included. -/
def silentHull (nfa : Nfa) (states : Set Nat) : Set Nat :=
  {id | ∃ state ∈ states, Path nfa.edges state [] id}

/-- What the edges that read a byte lead to from some states. -/
def byteTargets (nfa : Nfa) (states : Set Nat) (byte : UInt8) : Set Nat :=
  {id | ∃ state ∈ states, ⟨.symbol byte, id⟩ ∈ nfa.edges state}

/-- The sets that can be met: what silent edges lead to from the start, and, when a byte is on
some edge that leaves a set, what silent edges lead to from its targets. -/
inductive Met (nfa : Nfa) : Set Nat → Prop where
  | start : Met nfa (nfa.silentHull {nfa.start})
  | step {states : Set Nat} {byte : UInt8} (met : Met nfa states)
      (leaves : (nfa.byteTargets states byte).Nonempty) :
      Met nfa (nfa.silentHull (nfa.byteTargets states byte))

/-- The number of sets that can be met. -/
noncomputable def setCount (nfa : Nfa) : Nat :=
  {states | nfa.Met states}.ncard

/-- The members of a list as a set. -/
def members (list : List Nat) : Set Nat :=
  {id | id ∈ list}

theorem members_closure {seeds : List Nat} (seedsLt : ∀ seed ∈ seeds, seed < nfa.size) :
    members (nfa.closure seeds) = nfa.silentHull (members seeds) :=
  Set.ext fun _ => mem_closure_iff seedsLt

theorem members_move (set : List Nat) (byte : UInt8) :
    members (nfa.move set byte) = nfa.byteTargets (members set) byte :=
  Set.ext fun _ => mem_move_iff

theorem members_closure_start :
    members (nfa.closure [nfa.start]) = nfa.silentHull {nfa.start} := by
  have only : members [nfa.start] = {nfa.start} := Set.ext fun _ => List.mem_singleton
  rw [members_closure (List.forall_mem_singleton.mpr nfa.start_lt_size), only]

theorem members_closure_move (set : List Nat) (byte : UInt8) :
    members (nfa.closure (nfa.move set byte)) =
      nfa.silentHull (nfa.byteTargets (members set) byte) := by
  rw [members_closure move_lt, members_move]

/-- The bytes that are tried for a set are those on edges that leave it. -/
theorem mem_symbols_iff_nonempty {set : List Nat} {byte : UInt8} :
    byte ∈ nfa.symbols set ↔ (nfa.byteTargets (members set) byte).Nonempty := by
  rw [mem_symbols_iff, ← members_move]
  exact Iff.rfl

/-- Closures with the same members are listed alike. -/
theorem closure_eq_of_members_eq {seeds seeds2 : List Nat}
    (same : members (nfa.closure seeds) = members (nfa.closure seeds2)) :
    nfa.closure seeds = nfa.closure seeds2 :=
  closure_eq_of_mem_iff fun id => Set.ext_iff.mp same id

end Nfa

namespace Dfa

namespace Subset

variable {nfa : Nfa} {progress final : Progress} {stack : List Frame} {sets : List (List Nat)}
  {limit : Nat}

/-! ## The sets of an exploration -/

/-- The sets that have numbers can be met. -/
theorem Exploring.met_of_mem (exploring : Exploring nfa progress stack sets) {set : List Nat}
    (setMem : set ∈ sets) : nfa.Met (Nfa.members set) := by
  obtain ⟨id, placed⟩ := List.mem_iff_getElem?.mp setMem
  obtain ⟨input, walk⟩ := exploring.reached id (exploring.sound.numbered.lt_size placed)
  -- By the walk that leads to the number of the set, one edge after the other.
  induction input using List.reverseRecOn generalizing id set with
  | nil =>
      cases walk
      rw [exploring.sound.first, Option.some.injEq] at placed
      rw [← placed, Nfa.members_closure_start]
      exact .start
  | append_singleton first symbol ih =>
      rw [walkFrom_append_singleton] at walk
      rcases Option.bind_eq_some_iff.mp walk with ⟨before, firstWalk, edge⟩
      obtain ⟨source, sourcePlaced, _⟩ := exploring.represents_of_walkFrom firstWalk
      obtain ⟨symbolMem, targetPlaced⟩ := exploring.sound.edge sourcePlaced edge
      rw [targetPlaced, Option.some.injEq] at placed
      rw [← placed, Nfa.members_closure_move]
      exact .step (ih (List.mem_of_getElem? sourcePlaced) before sourcePlaced firstWalk)
        (Nfa.mem_symbols_iff_nonempty.mp symbolMem)

/-- When nothing is left to be tried, every set that can be met has a number. -/
theorem Exploring.exists_mem_of_met (exploring : Exploring nfa progress [] sets)
    {states : Set Nat} (met : nfa.Met states) : ∃ set ∈ sets, Nfa.members set = states := by
  induction met with
  | start => exact ⟨_, List.mem_of_getElem? exploring.sound.first, Nfa.members_closure_start⟩
  | @step states byte _ leaves ih =>
      obtain ⟨set, setMem, rfl⟩ := ih
      obtain ⟨id, placed⟩ := List.mem_iff_getElem?.mp setMem
      have symbolMem := Nfa.mem_symbols_iff_nonempty.mpr leaves
      rcases exploring.complete.pending placed symbolMem with present | ⟨frame, frameMem, _⟩
      · obtain ⟨target, edge⟩ := Option.isSome_iff_exists.mp present
        obtain ⟨_, targetPlaced⟩ := exploring.sound.edge placed edge
        exact ⟨_, List.mem_of_getElem? targetPlaced, Nfa.members_closure_move set byte⟩
      · cases frameMem

/-- The members of the set that has a number. -/
def membersAt (sets : List (List Nat)) (id : Nat) : Set Nat :=
  Nfa.members (sets.getD id [])

theorem membersAt_of_getElem? {id : Nat} {set : List Nat} (placed : sets[id]? = some set) :
    membersAt sets id = Nfa.members set := by
  rw [membersAt, List.getD_eq_getElem?_getD, placed, Option.getD_some]

/-- When nothing is left to be tried, each set that can be met has one number. -/
theorem Exploring.bijOn_membersAt (exploring : Exploring nfa progress [] sets) :
    Set.BijOn (membersAt sets) (Set.Iio progress.dfa.size) {states | nfa.Met states} := by
  have numbered := exploring.sound.numbered
  have exists_placed {id : Nat} (idLt : id < progress.dfa.size) :
      ∃ set, sets[id]? = some set :=
    ⟨_, List.getElem?_eq_getElem (numbered.length_eq ▸ idLt)⟩
  refine .mk ?_ ?_ ?_
  · intro id idLt
    obtain ⟨set, placed⟩ := exists_placed idLt
    rw [membersAt_of_getElem? placed]
    exact exploring.met_of_mem (List.mem_of_getElem? placed)
  · intro id idLt id2 idLt2 same
    obtain ⟨set, placed⟩ := exists_placed idLt
    obtain ⟨set2, placed2⟩ := exists_placed idLt2
    rw [membersAt_of_getElem? placed, membersAt_of_getElem? placed2] at same
    obtain ⟨seeds, _, rfl⟩ := exploring.sound.closed set (List.mem_of_getElem? placed)
    obtain ⟨seeds2, _, rfl⟩ := exploring.sound.closed set2 (List.mem_of_getElem? placed2)
    rw [← Nfa.closure_eq_of_members_eq same] at placed2
    exact index_eq_of_getElem? numbered.nodup placed placed2
  · intro states met
    obtain ⟨set, setMem, rfl⟩ := exploring.exists_mem_of_met met
    obtain ⟨id, placed⟩ := List.mem_iff_getElem?.mp setMem
    exact ⟨id, numbered.lt_size placed, membersAt_of_getElem? placed⟩

theorem Exploring.size_eq (exploring : Exploring nfa progress [] sets) :
    progress.dfa.size = nfa.setCount := by
  rw [Nfa.setCount, ← exploring.bijOn_membersAt.ncard_eq, Set.ncard_Iio_nat]

/-! ## The limit of an exploration -/

theorem size_le_of_explore (done : explore nfa limit progress stack = .ok final) :
    progress.dfa.size ≤ final.dfa.size := by
  fun_induction explore nfa limit progress stack with
  | case1 progress =>
      cases done
      exact Nat.le_refl _
  | case2 progress id set stack ih => exact ih done
  | case3 progress id set symbol symbols stack next rest target known =>
      rename_i ih
      have le := ih done
      rwa [size_connect] at le
  | case4 progress id set symbol symbols stack next rest fresh roomLeft =>
      rename_i ih
      have le := ih done
      rw [size_connect, size_register] at le
      exact Nat.le_of_succ_le le
  | case5 => cases done

/-- An exploration that succeeds runs the same way within every limit that leaves room for
what it built. -/
theorem explore_eq_of_le {limit2 : Nat} (done : explore nfa limit progress stack = .ok final)
    (enough : final.dfa.size ≤ limit2) : explore nfa limit2 progress stack = .ok final := by
  fun_induction explore nfa limit progress stack with
  | case1 progress =>
      rw [explore]
      exact done
  | case2 progress id set stack ih =>
      rw [explore]
      exact ih done
  | case3 progress id set symbol symbols stack next rest target known =>
      rename_i ih
      rw [explore, known]
      exact ih done
  | case4 progress id set symbol symbols stack next rest fresh roomLeft =>
      rename_i ih
      have grown := size_le_of_explore done
      rw [size_connect, size_register] at grown
      rw [explore, fresh]
      simp only [if_pos (Nat.lt_of_lt_of_le grown enough)]
      exact ih done
  | case5 => cases done

/-- An exploration that fails has used its whole limit and needs one state more. -/
theorem eq_of_explore_eq_error {excess : LimitExceeded} (room : progress.dfa.size ≤ limit)
    (failed : explore nfa limit progress stack = .error excess) :
    excess = ⟨.dfaStates, limit, limit + 1⟩ := by
  fun_induction explore nfa limit progress stack with
  | case1 => cases failed
  | case2 progress id set stack ih => exact ih room failed
  | case3 progress id set symbol symbols stack next rest target known =>
      rename_i ih
      exact ih (by rwa [size_connect]) failed
  | case4 progress id set symbol symbols stack next rest fresh roomLeft =>
      rename_i ih
      apply ih _ failed
      rwa [size_connect, size_register]
  | case5 progress id set symbol symbols stack next fresh =>
      rename_i full
      cases failed
      rw [Subset.excess, Nat.le_antisymm room (Nat.not_lt.mp full)]

end Subset

/-! ## Subset construction -/

open Subset

variable {nfa : Nfa} {limit limit2 : Nat} {dfa : Dfa}

theorem ofNfa_eq_of_le (done : ofNfa nfa limit = .ok dfa) (enough : dfa.size ≤ limit2) :
    ofNfa nfa limit2 = .ok dfa := by
  obtain ⟨_, progress, explored, rfl⟩ := ofNfa_eq_ok_iff.mp done
  have grown := size_le_of_explore explored
  rw [size_register] at grown
  have room : 0 < limit2 := Nat.lt_of_lt_of_le (Nat.zero_lt_of_lt grown) enough
  exact ofNfa_eq_ok_iff.mpr ⟨room, progress, explore_eq_of_le explored enough, rfl⟩

theorem eq_of_ofNfa_eq_error {excess : LimitExceeded} (failed : ofNfa nfa limit = .error excess) :
    excess = ⟨.dfaStates, limit, limit + 1⟩ := by
  rcases Nat.eq_zero_or_pos limit with rfl | room
  · cases failed
    rfl
  · rw [ofNfa_of_pos room] at failed
    cases explored : exploreStart nfa limit with
    | ok progress =>
        rw [explored] at failed
        cases failed
    | error found =>
        rw [explored] at failed
        cases failed
        have first : (Progress.initial.register nfa (nfa.closure [nfa.start])).dfa.size ≤ limit :=
          room
        exact eq_of_explore_eq_error first explored

/-- Only finitely many sets can be met, and their number alone decides which limits are enough.
All of these give the same automaton.  Its states stand for the sets that can be met, each for
one: those that are live behind the inputs that lead to it.  Every state is reached and has at
most one edge for each byte.  A limit that is too low is reported with one state more. -/
theorem ofNfa_makes_each_set_once (nfa : Nfa) :
    {states | nfa.Met states}.Finite ∧
      ∃ dfa : Dfa, dfa.size = nfa.setCount ∧
        (∀ id < dfa.size, ∃ input, dfa.walk input = some id) ∧
        (∀ id, ((dfa.state id).edges.map Prod.fst).Nodup) ∧
        (∃ setAt : Nat → Set Nat,
          Set.BijOn setAt {id | id < dfa.size} {states | nfa.Met states} ∧
            ∀ input id, dfa.walk input = some id →
              setAt id = {live | Nfa.Path nfa.edges nfa.start input live}) ∧
        ∀ limit, ofNfa nfa limit =
          if nfa.setCount ≤ limit then .ok dfa
          else .error ⟨.dfaStates, limit, limit + 1⟩ := by
  obtain ⟨dfa, done⟩ := exists_ofNfa_eq_ok (Nat.le_refl (2 ^ nfa.size))
  obtain ⟨progress, sets, rfl, exploring, _⟩ := exploring_of_ofNfa done
  have determines := determines_of_exploring exploring
  have bijOn := exploring.bijOn_membersAt
  have walk_eq := funext (walk_eq_walkFrom determines.inRange)
  refine ⟨bijOn.finite_iff_finite.mp (Set.finite_Iio _), progress.dfa, exploring.size_eq, ?_, ?_,
    ⟨membersAt sets, bijOn, ?_⟩, ?_⟩
  · rw [walk_eq]
    exact determines.reached
  · intro id
    exact (progress.dfa.state id).nodup_symbols
  · intro input id walk
    rw [walk_eq, exploring.sound.start_eq] at walk
    obtain ⟨set, placed, represents⟩ := exploring.represents_of_walkFrom walk
    rw [membersAt_of_getElem? placed]
    exact Set.ext represents
  · intro limit
    split
    · rename_i enough
      exact ofNfa_eq_of_le done (by rwa [exploring.size_eq])
    · rename_i tooLow
      cases outcome : ofNfa nfa limit with
      | error excess => rw [eq_of_ofNfa_eq_error outcome]
      | ok dfa =>
          -- An automaton within the limit would have a state for each set.
          obtain ⟨progress2, sets2, rfl, exploring2, sizeLe⟩ := exploring_of_ofNfa outcome
          rw [exploring2.size_eq] at sizeLe
          exact absurd sizeLe tooLow

end Dfa

end ByteSignature
