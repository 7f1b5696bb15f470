import ByteSignature.Dfa.Subset
import ByteSignature.Proofs.Dfa.Walk
import ByteSignature.Proofs.Nfa.Closure
import Mathlib.Data.List.Sort
import Mathlib.Data.List.Sublists

/-!
# What subset construction builds

While sets are explored, the numbers of the sets and the edges between them are right,
every number is reached, and every byte that leaves a numbered set has its edge or is
still to be tried.  When nothing is left to be tried, the automaton walks exactly where
the nondeterministic one has live states.
-/

namespace ByteSignature.Dfa

namespace Subset

/-! ## Numbers of sets -/

/-- The listed sets are numbered by their positions. -/
structure Numbered (nfa : Nfa) (progress : Progress) (sets : List (List Nat)) : Prop where
  length_eq : sets.length = progress.dfa.size
  number_iff : ∀ (set : List Nat) (id : Nat),
    progress.numbers[set]? = some id ↔ sets[id]? = some set
  accepting_eq : ∀ {id : Nat} {set : List Nat}, sets[id]? = some set →
    progress.dfa.isAccepting id = set.contains nfa.terminate

namespace Numbered

variable {nfa : Nfa} {progress : Progress} {sets : List (List Nat)}

theorem initial (nfa : Nfa) : Numbered nfa .initial [] where
  length_eq := rfl
  number_iff := by simp [Progress.initial]
  accepting_eq := by simp

theorem lt_size (numbered : Numbered nfa progress sets) {id : Nat} {set : List Nat}
    (placed : sets[id]? = some set) : id < progress.dfa.size := by
  rw [← numbered.length_eq]
  exact (List.getElem?_eq_some_iff.mp placed).1

/-- Distinct numbers have distinct sets. -/
theorem nodup (numbered : Numbered nfa progress sets) : sets.Nodup := by
  rw [List.nodup_iff_injective_get]
  intro first second eq
  have atFirst : sets[first.1]? = some (sets.get first) := List.getElem?_eq_getElem first.2
  have atSecond : sets[second.1]? = some (sets.get second) := List.getElem?_eq_getElem second.2
  rw [← eq, ← numbered.number_iff] at atSecond
  rw [← numbered.number_iff, atSecond] at atFirst
  exact Fin.ext (Option.some.inj atFirst).symm

theorem notMem_of_eq_none (numbered : Numbered nfa progress sets) {set : List Nat}
    (fresh : progress.numbers[set]? = none) : set ∉ sets := by
  intro setMem
  rcases List.mem_iff_getElem?.mp setMem with ⟨id, placed⟩
  rw [(numbered.number_iff set id).mpr placed] at fresh
  cases fresh

/-- A new set gets the next number. -/
theorem register (numbered : Numbered nfa progress sets) {set : List Nat}
    (fresh : progress.numbers[set]? = none) :
    Numbered nfa (progress.register nfa set) (sets ++ [set]) where
  length_eq := by
    simp [Progress.register, numbered.length_eq]
  number_iff := by
    intro other id
    rw [Progress.register, Std.HashMap.getElem?_insert, List.getElem?_append]
    have notMem := numbered.notMem_of_eq_none fresh
    by_cases isSet : set = other
    · subst isSet
      rw [if_pos (beq_self_eq_true set), Option.some.injEq, ← numbered.length_eq]
      by_cases idLt : id < sets.length
      · rw [if_pos idLt]
        constructor
        · rintro rfl
          exact absurd idLt (Nat.lt_irrefl _)
        · intro placed
          exact absurd (List.mem_of_getElem? placed) notMem
      · rw [if_neg idLt]
        constructor
        · rintro rfl
          simp
        · intro placed
          have := (List.getElem?_eq_some_iff.mp placed).1
          simp only [List.length_singleton] at this
          omega
    · have different : (set == other) = false := by simpa using isSet
      rw [different, if_neg Bool.false_ne_true, numbered.number_iff]
      by_cases idLt : id < sets.length
      · rw [if_pos idLt]
      · rw [if_neg idLt, List.getElem?_eq_none (Nat.not_lt.mp idLt)]
        constructor
        · intro missing
          cases missing
        · intro placed
          exact absurd (List.mem_singleton.mp (List.mem_of_getElem? placed)).symm isSet
  accepting_eq := by
    intro id other placed
    rw [isAccepting, Progress.register]
    rw [List.getElem?_append] at placed
    by_cases idLt : id < sets.length
    · rw [if_pos idLt] at placed
      rw [state_addState_of_lt (numbered.length_eq ▸ idLt)]
      exact numbered.accepting_eq placed
    · rw [if_neg idLt] at placed
      have index := (List.getElem?_eq_some_iff.mp placed).1
      rw [List.length_singleton] at index
      have isNew : id = progress.dfa.size := by
        rw [← numbered.length_eq]
        omega
      rw [isNew, state_addState_self, List.mem_singleton.mp (List.mem_of_getElem? placed)]
      rfl

theorem connect (numbered : Numbered nfa progress sets) (source : Nat) (symbol : UInt8)
    (target : Nat) : Numbered nfa (progress.connect source symbol target) sets where
  length_eq := by
    rw [Progress.connect, size_addEdge]
    exact numbered.length_eq
  number_iff := numbered.number_iff
  accepting_eq := by
    intro id set placed
    rw [Progress.connect, isAccepting_addEdge]
    exact numbered.accepting_eq placed

end Numbered

/-! ## Exploration -/

/-- What is built so far is right: edges lead to the closed sets that their bytes lead to. -/
structure Sound (nfa : Nfa) (progress : Progress) (sets : List (List Nat)) : Prop where
  numbered : Numbered nfa progress sets
  start_eq : progress.dfa.start = 0
  first : sets[0]? = some (nfa.closure [nfa.start])
  closed : ∀ set ∈ sets, ∃ seeds, (∀ seed ∈ seeds, seed < nfa.size) ∧ set = nfa.closure seeds
  edge : ∀ {id : Nat} {set : List Nat} {symbol : UInt8} {target : Nat}, sets[id]? = some set →
    progress.dfa.target? id symbol = some target →
      symbol ∈ nfa.symbols set ∧ sets[target]? = some (nfa.closure (nfa.move set symbol))

/-- Walks from the first state lead to every state. -/
def Reached (progress : Progress) : Prop :=
  ∀ id < progress.dfa.size, ∃ input, progress.dfa.walkFrom 0 input = some id

/-- The bytes on the stack leave its sets, and a byte that leaves a numbered set has an
edge or is on the stack. -/
structure Complete (nfa : Nfa) (progress : Progress) (stack : List Frame)
    (sets : List (List Nat)) : Prop where
  frame : ∀ frame ∈ stack,
    sets[frame.id]? = some frame.set ∧ frame.symbols ⊆ nfa.symbols frame.set
  pending : ∀ {id : Nat} {set : List Nat} {symbol : UInt8}, sets[id]? = some set →
    symbol ∈ nfa.symbols set → (progress.dfa.target? id symbol).isSome ∨
      ∃ frame ∈ stack, frame.id = id ∧ symbol ∈ frame.symbols

variable {nfa : Nfa} {progress : Progress} {sets : List (List Nat)}

theorem target?_connect_self {source : Nat} (lt : source < progress.dfa.size) (symbol : UInt8)
    (target : Nat) : (progress.connect source symbol target).dfa.target? source symbol =
      some ((progress.dfa.target? source symbol).getD target) := by
  rw [Progress.connect, Dfa.target?, state_addEdge_self lt, State.target?_addEdge_self]
  rfl

theorem target?_connect_of_ne {source id : Nat} {symbol other : UInt8}
    (ne : ¬ (id = source ∧ other = symbol)) (target : Nat) :
    (progress.connect source symbol target).dfa.target? id other =
      progress.dfa.target? id other := by
  rw [Progress.connect]
  by_cases isSource : id = source
  · subst isSource
    by_cases lt : id < progress.dfa.size
    · rw [Dfa.target?, state_addEdge_self lt, State.target?_addEdge_of_ne fun eq => ne ⟨rfl, eq⟩]
      rfl
    · have le := Nat.not_lt.mp lt
      rw [target?_of_le le, target?_of_le (by rwa [size_addEdge])]
  · rw [Dfa.target?, state_addEdge_of_ne isSource]
    rfl

/-- Adding an edge keeps those that exist. -/
theorem target?_connect_of_eq_some {source id next : Nat} {symbol other : UInt8}
    (edge : progress.dfa.target? id other = some next) (target : Nat) :
    (progress.connect source symbol target).dfa.target? id other = some next := by
  by_cases same : id = source ∧ other = symbol
  · rcases same with ⟨rfl, rfl⟩
    have lt : id < progress.dfa.size := by
      by_contra notLt
      rw [target?_of_le (Nat.not_lt.mp notLt)] at edge
      cases edge
    rw [target?_connect_self lt, edge]
    rfl
  · rw [target?_connect_of_ne same, edge]

theorem size_connect (progress : Progress) (source : Nat) (symbol : UInt8) (target : Nat) :
    (progress.connect source symbol target).dfa.size = progress.dfa.size := by
  rw [Progress.connect, size_addEdge]

theorem size_register (progress : Progress) (set : List Nat) :
    (progress.register nfa set).dfa.size = progress.dfa.size + 1 := by
  rw [Progress.register, size_addState]

theorem target?_register (progress : Progress) (set : List Nat) (id : Nat) (symbol : UInt8) :
    (progress.register nfa set).dfa.target? id symbol = progress.dfa.target? id symbol := by
  rw [Progress.register, target?_addState]

/-! ### What is built -/

theorem Sound.initial (nfa : Nfa) :
    Sound nfa (Progress.initial.register nfa (nfa.closure [nfa.start]))
      [nfa.closure [nfa.start]] where
  numbered := (Numbered.initial nfa).register (by simp [Progress.initial])
  start_eq := rfl
  first := rfl
  closed := by
    intro set setMem
    refine ⟨[nfa.start], ?_, List.mem_singleton.mp setMem⟩
    intro seed seedMem
    rw [List.mem_singleton] at seedMem
    exact seedMem ▸ nfa.start_lt_size
  edge := by
    intro id set symbol target _ edge
    rw [target?_register] at edge
    cases edge

namespace Sound

theorem register (sound : Sound nfa progress sets) {set : List Nat}
    (fresh : progress.numbers[set]? = none)
    (closed : ∃ seeds, (∀ seed ∈ seeds, seed < nfa.size) ∧ set = nfa.closure seeds) :
    Sound nfa (progress.register nfa set) (sets ++ [set]) where
  numbered := sound.numbered.register fresh
  start_eq := sound.start_eq
  first := by
    rw [List.getElem?_append_left (List.getElem?_eq_some_iff.mp sound.first).1]
    exact sound.first
  closed := by
    intro other otherMem
    rcases List.mem_append.mp otherMem with otherMem | otherMem
    · exact sound.closed other otherMem
    · exact List.mem_singleton.mp otherMem ▸ closed
  edge := by
    intro id other symbol target placed edge
    rw [target?_register] at edge
    have idLt : id < sets.length := by
      by_contra notLt
      rw [target?_of_le (sound.numbered.length_eq ▸ Nat.not_lt.mp notLt)] at edge
      cases edge
    rw [List.getElem?_append_left idLt] at placed
    obtain ⟨symbolMem, targetPlaced⟩ := sound.edge placed edge
    refine ⟨symbolMem, ?_⟩
    rw [List.getElem?_append_left (List.getElem?_eq_some_iff.mp targetPlaced).1]
    exact targetPlaced

theorem connect (sound : Sound nfa progress sets) {source target : Nat} {symbol : UInt8}
    {set : List Nat} (placed : sets[source]? = some set) (symbolMem : symbol ∈ nfa.symbols set)
    (targetPlaced : sets[target]? = some (nfa.closure (nfa.move set symbol))) :
    Sound nfa (progress.connect source symbol target) sets where
  numbered := sound.numbered.connect source symbol target
  start_eq := sound.start_eq
  first := sound.first
  closed := sound.closed
  edge := by
    intro id other otherSymbol next otherPlaced edge
    by_cases same : id = source ∧ otherSymbol = symbol
    · rcases same with ⟨rfl, rfl⟩
      rw [target?_connect_self (sound.numbered.lt_size placed), Option.some.injEq] at edge
      rw [placed, Option.some.injEq] at otherPlaced
      subst otherPlaced
      refine ⟨symbolMem, ?_⟩
      cases old : progress.dfa.target? id otherSymbol with
      | none =>
          rw [old] at edge
          exact edge ▸ targetPlaced
      | some oldTarget =>
          rw [old] at edge
          exact edge ▸ (sound.edge placed old).2
    · rw [target?_connect_of_ne same] at edge
      exact sound.edge otherPlaced edge

end Sound

/-! ### What is reached -/

theorem Reached.initial (nfa : Nfa) (set : List Nat) :
    Reached (Progress.initial.register nfa set) := by
  intro id idLt
  rw [size_register] at idLt
  have isStart : id = 0 := Nat.lt_one_iff.mp idLt
  exact ⟨[], congrArg some isStart.symm⟩

theorem Reached.connect (reached : Reached progress) (source : Nat) (symbol : UInt8)
    (target : Nat) : Reached (progress.connect source symbol target) := by
  intro id idLt
  rw [size_connect] at idLt
  obtain ⟨input, walk⟩ := reached id idLt
  exact ⟨input, walkFrom_eq_some_of_le
    (fun _ _ _ edge => target?_connect_of_eq_some edge target) walk⟩

/-- A new state is reached by the edge that leads to it. -/
theorem Reached.meet (reached : Reached progress) {source : Nat}
    (sourceLt : source < progress.dfa.size) {symbol : UInt8} {set : List Nat}
    (free : progress.dfa.target? source symbol = none) :
    Reached ((progress.register nfa set).connect source symbol progress.dfa.size) := by
  have keeps : ∀ id other target, progress.dfa.target? id other = some target →
      ((progress.register nfa set).connect source symbol progress.dfa.size).dfa.target? id other =
        some target := by
    intro id other target edge
    apply target?_connect_of_eq_some
    rwa [target?_register]
  intro id idLt
  rw [size_connect, size_register] at idLt
  by_cases isNew : id = progress.dfa.size
  · obtain ⟨input, walk⟩ := reached source sourceLt
    refine ⟨input ++ [symbol], ?_⟩
    rw [walkFrom_append_singleton, walkFrom_eq_some_of_le keeps walk, Option.bind_some,
      target?_connect_self, target?_register, free, isNew]
    · rfl
    · rw [size_register]
      exact Nat.lt_succ_of_lt sourceLt
  · obtain ⟨input, walk⟩ := reached id (by omega)
    exact ⟨input, walkFrom_eq_some_of_le keeps walk⟩

/-! ### What is left to be tried -/

variable {stack : List Frame} {id : Nat} {set : List Nat} {symbols : List UInt8} {symbol : UInt8}

theorem Complete.initial (nfa : Nfa) :
    Complete nfa (Progress.initial.register nfa (nfa.closure [nfa.start]))
      [⟨0, nfa.closure [nfa.start], nfa.symbols (nfa.closure [nfa.start])⟩]
      [nfa.closure [nfa.start]] where
  frame := by simp
  pending := by
    intro id set symbol placed symbolMem
    right
    have index := (List.getElem?_eq_some_iff.mp placed).1
    rw [List.length_singleton] at index
    rw [List.mem_singleton.mp (List.mem_of_getElem? placed)] at symbolMem
    exact ⟨_, List.mem_singleton_self _, (Nat.lt_one_iff.mp index).symm, symbolMem⟩

namespace Complete

/-- A frame without bytes is done. -/
theorem drop (complete : Complete nfa progress (⟨id, set, []⟩ :: stack) sets) :
    Complete nfa progress stack sets where
  frame := fun frame frameMem => complete.frame frame (List.mem_cons_of_mem _ frameMem)
  pending := by
    intro other otherSet otherSymbol placed symbolMem
    rcases complete.pending placed symbolMem with present | ⟨frame, frameMem, eq, waiting⟩
    · exact Or.inl present
    · rcases List.mem_cons.mp frameMem with rfl | frameMem
      · cases waiting
      · exact Or.inr ⟨frame, frameMem, eq, waiting⟩

/-- A byte whose edge was added is done. -/
theorem connect (complete : Complete nfa progress (⟨id, set, symbol :: symbols⟩ :: stack) sets)
    (idLt : id < progress.dfa.size) (target : Nat) :
    Complete nfa (progress.connect id symbol target) (⟨id, set, symbols⟩ :: stack) sets where
  frame := by
    intro frame frameMem
    rcases List.mem_cons.mp frameMem with rfl | frameMem
    · have top := complete.frame _ List.mem_cons_self
      exact ⟨top.1, fun other otherMem => top.2 (List.mem_cons_of_mem _ otherMem)⟩
    · exact complete.frame frame (List.mem_cons_of_mem _ frameMem)
  pending := by
    intro other otherSet otherSymbol placed symbolMem
    rcases complete.pending placed symbolMem with present | ⟨frame, frameMem, eq, waiting⟩
    · rcases Option.isSome_iff_exists.mp present with ⟨next, edge⟩
      rw [target?_connect_of_eq_some edge]
      exact Or.inl rfl
    · rcases List.mem_cons.mp frameMem with rfl | frameMem
      · rcases List.mem_cons.mp waiting with rfl | waiting
        · cases eq
          rw [target?_connect_self idLt]
          exact Or.inl rfl
        · exact Or.inr ⟨_, List.mem_cons_self, eq, waiting⟩
      · exact Or.inr ⟨frame, List.mem_cons_of_mem _ frameMem, eq, waiting⟩

/-- The bytes of a new set are put on the stack. -/
theorem register (complete : Complete nfa progress stack sets)
    (length_eq : sets.length = progress.dfa.size) (next : List Nat) :
    Complete nfa (progress.register nfa next)
      (⟨progress.dfa.size, next, nfa.symbols next⟩ :: stack) (sets ++ [next]) where
  frame := by
    intro frame frameMem
    rcases List.mem_cons.mp frameMem with rfl | frameMem
    · simp [← length_eq]
    · obtain ⟨placed, subset⟩ := complete.frame frame frameMem
      refine ⟨?_, subset⟩
      rw [List.getElem?_append_left (List.getElem?_eq_some_iff.mp placed).1]
      exact placed
  pending := by
    intro other otherSet otherSymbol placed symbolMem
    rw [target?_register]
    rw [List.getElem?_append] at placed
    by_cases otherLt : other < sets.length
    · rw [if_pos otherLt] at placed
      rcases complete.pending placed symbolMem with present | ⟨frame, frameMem, eq, waiting⟩
      · exact Or.inl present
      · exact Or.inr ⟨frame, List.mem_cons_of_mem _ frameMem, eq, waiting⟩
    · rw [if_neg otherLt] at placed
      right
      have index := (List.getElem?_eq_some_iff.mp placed).1
      rw [List.length_singleton] at index
      rw [List.mem_singleton.mp (List.mem_of_getElem? placed)] at symbolMem
      refine ⟨_, List.mem_cons_self, ?_, symbolMem⟩
      change progress.dfa.size = other
      rw [← length_eq]
      omega

/-- The order of the stack does not matter. -/
theorem swap {first second : Frame}
    (complete : Complete nfa progress (first :: second :: stack) sets) :
    Complete nfa progress (second :: first :: stack) sets := by
  have mem_iff (frame : Frame) :
      frame ∈ second :: first :: stack ↔ frame ∈ first :: second :: stack :=
    (List.Perm.swap first second stack).mem_iff
  exact {
    frame := fun frame frameMem => complete.frame frame ((mem_iff frame).mp frameMem)
    pending := fun placed symbolMem => (complete.pending placed symbolMem).imp_right
      fun ⟨frame, frameMem, waiting⟩ => ⟨frame, (mem_iff frame).mpr frameMem, waiting⟩ }

end Complete

/-! ### Runs -/

/-- The exploration is on its way: what is built is right and reached, and what is missing
is on the stack. -/
structure Exploring (nfa : Nfa) (progress : Progress) (stack : List Frame)
    (sets : List (List Nat)) : Prop where
  sound : Sound nfa progress sets
  reached : Reached progress
  complete : Complete nfa progress stack sets

namespace Exploring

theorem initial (nfa : Nfa) :
    Exploring nfa (Progress.initial.register nfa (nfa.closure [nfa.start]))
      [⟨0, nfa.closure [nfa.start], nfa.symbols (nfa.closure [nfa.start])⟩]
      [nfa.closure [nfa.start]] :=
  ⟨.initial nfa, .initial nfa _, .initial nfa⟩

theorem drop (exploring : Exploring nfa progress (⟨id, set, []⟩ :: stack) sets) :
    Exploring nfa progress stack sets :=
  ⟨exploring.sound, exploring.reached, exploring.complete.drop⟩

/-- A byte may lead to a set that has a number. -/
theorem revisit {target : Nat}
    (exploring : Exploring nfa progress (⟨id, set, symbol :: symbols⟩ :: stack) sets)
    (known : progress.numbers[nfa.closure (nfa.move set symbol)]? = some target) :
    Exploring nfa (progress.connect id symbol target) (⟨id, set, symbols⟩ :: stack) sets := by
  obtain ⟨placed, subset⟩ := exploring.complete.frame _ List.mem_cons_self
  have numbered := exploring.sound.numbered
  exact {
    sound := exploring.sound.connect placed (subset List.mem_cons_self)
      ((numbered.number_iff _ _).mp known)
    reached := exploring.reached.connect id symbol target
    complete := exploring.complete.connect (numbered.lt_size placed) target }

/-- A byte may lead to a set that is new. -/
theorem meet (exploring : Exploring nfa progress (⟨id, set, symbol :: symbols⟩ :: stack) sets)
    (fresh : progress.numbers[nfa.closure (nfa.move set symbol)]? = none) :
    Exploring nfa
      ((progress.register nfa (nfa.closure (nfa.move set symbol))).connect id symbol
        progress.dfa.size)
      (⟨progress.dfa.size, nfa.closure (nfa.move set symbol),
          nfa.symbols (nfa.closure (nfa.move set symbol))⟩ :: ⟨id, set, symbols⟩ :: stack)
      (sets ++ [nfa.closure (nfa.move set symbol)]) := by
  obtain ⟨placed, subset⟩ := exploring.complete.frame _ List.mem_cons_self
  have numbered := exploring.sound.numbered
  have idLt := numbered.lt_size placed
  -- An edge for the byte would lead to the set, which has no number.
  have free : progress.dfa.target? id symbol = none := by
    cases edge : progress.dfa.target? id symbol with
    | none => rfl
    | some target =>
        have targetPlaced := (exploring.sound.edge placed edge).2
        exact absurd (List.mem_of_getElem? targetPlaced) (numbered.notMem_of_eq_none fresh)
  have placedStill : (sets ++ [nfa.closure (nfa.move set symbol)])[id]? = some set := by
    rw [List.getElem?_append_left (List.getElem?_eq_some_iff.mp placed).1]
    exact placed
  exact {
    sound := by
      apply (exploring.sound.register fresh ⟨_, Nfa.move_lt, rfl⟩).connect placedStill
        (subset List.mem_cons_self)
      simp [← numbered.length_eq]
    reached := exploring.reached.meet idLt free
    complete := by
      apply ((exploring.complete.register numbered.length_eq _).swap.connect _ _).swap
      rw [size_register]
      exact Nat.lt_succ_of_lt idLt }

end Exploring

/-- A successful exploration builds an automaton with nothing left to be tried. -/
theorem exploring_of_explore {limit : Nat} {final : Progress}
    (exploring : Exploring nfa progress stack sets) (room : progress.dfa.size ≤ limit)
    (done : explore nfa limit progress stack = .ok final) :
    ∃ sets, Exploring nfa final [] sets ∧ final.dfa.size ≤ limit := by
  fun_induction explore nfa limit progress stack generalizing sets with
  | case1 progress =>
      cases done
      exact ⟨sets, exploring, room⟩
  | case2 progress id set stack ih => exact ih exploring.drop room done
  | case3 progress id set symbol symbols stack next rest target known =>
      rename_i ih
      exact ih (exploring.revisit known) (by rwa [size_connect]) done
  | case4 progress id set symbol symbols stack next rest fresh roomLeft =>
      rename_i ih
      apply ih (exploring.meet fresh) _ done
      rwa [size_connect, size_register]
  | case5 => cases done

/-! ### Room for every set -/

/-- There are at most `2 ^ n` closed sets of `n` states. -/
theorem Sound.length_le (sound : Sound nfa progress sets) : sets.length ≤ 2 ^ nfa.size := by
  have subset : sets ⊆ (List.range nfa.size).sublists := by
    intro set setMem
    obtain ⟨seeds, seedsLt, rfl⟩ := sound.closed set setMem
    have ascending := nfa.pairwise_lt_closure seeds
    have within : nfa.closure seeds ⊆ List.range nfa.size := fun id idMem =>
      List.mem_range.mpr (Nfa.lt_of_mem_closure seedsLt idMem)
    exact List.mem_sublists.mpr (List.sublist_of_subperm_of_pairwise
      (List.subperm_of_subset (ascending.imp Nat.ne_of_lt) within) ascending
      List.pairwise_lt_range)
  have bound := (List.subperm_of_subset sound.numbered.nodup subset).length_le
  rwa [List.length_sublists, List.length_range] at bound

/-- With room for every closed set, the exploration succeeds. -/
theorem exists_explore_eq_ok {limit : Nat} (exploring : Exploring nfa progress stack sets)
    (enough : 2 ^ nfa.size ≤ limit) : ∃ final, explore nfa limit progress stack = .ok final := by
  fun_induction explore nfa limit progress stack generalizing sets with
  | case1 progress => exact ⟨progress, rfl⟩
  | case2 progress id set stack ih => exact ih exploring.drop
  | case3 progress id set symbol symbols stack next rest target known =>
      rename_i ih
      exact ih (exploring.revisit known)
  | case4 progress id set symbol symbols stack next rest fresh roomLeft =>
      rename_i ih
      exact ih (exploring.meet fresh)
  | case5 progress id set symbol symbols stack next fresh =>
      rename_i full
      have bound := (exploring.meet fresh).sound.length_le
      rw [List.length_append, exploring.sound.numbered.length_eq, List.length_singleton] at bound
      omega

/-! ### Finished explorations -/

namespace Exploring

/-- Walks lead to the sets of the states that their inputs lead to. -/
theorem represents_of_walkFrom (exploring : Exploring nfa progress stack sets)
    {input : List UInt8} (walk : progress.dfa.walkFrom 0 input = some id) :
    ∃ set, sets[id]? = some set ∧ nfa.Represents set input := by
  induction input using List.reverseRecOn generalizing id with
  | nil =>
      cases walk
      exact ⟨_, exploring.sound.first, nfa.represents_start⟩
  | append_singleton first symbol ih =>
      rw [walkFrom_append_singleton] at walk
      rcases Option.bind_eq_some_iff.mp walk with ⟨before, firstWalk, edge⟩
      obtain ⟨set, placed, represents⟩ := ih firstWalk
      exact ⟨_, (exploring.sound.edge placed edge).2, represents.step symbol⟩

theorem isSome_walkFrom_iff (exploring : Exploring nfa progress [] sets) (input : List UInt8) :
    (progress.dfa.walkFrom 0 input).isSome ↔
      ∃ last, Nfa.Path nfa.edges nfa.start input last := by
  induction input using List.reverseRecOn with
  | nil => exact iff_of_true rfl ⟨nfa.start, .stay _⟩
  | append_singleton first symbol ih =>
      rw [walkFrom_append_singleton]
      constructor
      · intro present
        rcases Option.isSome_iff_exists.mp present with ⟨last, walk⟩
        rcases Option.bind_eq_some_iff.mp walk with ⟨before, firstWalk, edge⟩
        obtain ⟨set, placed, represents⟩ := exploring.represents_of_walkFrom firstWalk
        exact represents.mem_symbols_iff.mp (exploring.sound.edge placed edge).1
      · rintro ⟨last, path⟩
        obtain ⟨middle, firstPath, _⟩ := path.exists_append
        rcases Option.isSome_iff_exists.mp (ih.mpr ⟨middle, firstPath⟩) with ⟨before, firstWalk⟩
        obtain ⟨set, placed, represents⟩ := exploring.represents_of_walkFrom firstWalk
        have symbolMem := represents.mem_symbols_iff.mpr ⟨last, path⟩
        rw [firstWalk, Option.bind_some]
        rcases exploring.complete.pending placed symbolMem with present | ⟨frame, frameMem, _⟩
        · exact present
        · cases frameMem

end Exploring

end Subset

/-! ## The automaton -/

open Subset

/-- The deterministic automaton walks where the nondeterministic one has live states, and
accepts where the accepting state is among them. -/
structure Determines (nfa : Nfa) (dfa : Dfa) : Prop where
  inRange : dfa.InRange
  reached : ∀ id < dfa.size, ∃ input, dfa.walkFrom dfa.start input = some id
  isSome_iff : ∀ input, (dfa.walkFrom dfa.start input).isSome ↔
    ∃ id, Nfa.Path nfa.edges nfa.start input id
  isAccepting_iff : ∀ {input id}, dfa.walkFrom dfa.start input = some id →
    (dfa.isAccepting id = true ↔ Nfa.Path nfa.edges nfa.start input nfa.terminate)

theorem determines_of_exploring {nfa : Nfa} {progress : Progress} {sets : List (List Nat)}
    (exploring : Exploring nfa progress [] sets) : Determines nfa progress.dfa := by
  have numbered := exploring.sound.numbered
  have startEq := exploring.sound.start_eq
  exact {
    inRange := by
      constructor
      · rw [startEq]
        exact numbered.lt_size exploring.sound.first
      · intro id symbol target edge
        have idLt : id < sets.length := by
          by_contra notLt
          rw [target?_of_le (numbered.length_eq ▸ Nat.not_lt.mp notLt)] at edge
          cases edge
        have placed : sets[id]? = some sets[id] := List.getElem?_eq_getElem idLt
        exact numbered.lt_size (exploring.sound.edge placed edge).2
    reached := by
      rw [startEq]
      exact exploring.reached
    isSome_iff := by
      rw [startEq]
      exact exploring.isSome_walkFrom_iff
    isAccepting_iff := by
      intro input id walk
      rw [startEq] at walk
      obtain ⟨set, placed, represents⟩ := exploring.represents_of_walkFrom walk
      rw [numbered.accepting_eq placed, List.contains_iff_mem]
      exact represents _ }

/-- The exploration from the closure of the start. -/
def exploreStart (nfa : Nfa) (limit : Nat) : Except LimitExceeded Progress :=
  explore nfa limit (Progress.initial.register nfa (nfa.closure [nfa.start]))
    [⟨0, nfa.closure [nfa.start], nfa.symbols (nfa.closure [nfa.start])⟩]

theorem ofNfa_of_pos {nfa : Nfa} {limit : Nat} (room : 0 < limit) :
    ofNfa nfa limit = (exploreStart nfa limit).map Progress.dfa := by
  rw [ofNfa, if_pos room]
  rfl

theorem ofNfa_zero (nfa : Nfa) : ofNfa nfa 0 = .error ⟨.dfaStates, 0, 1⟩ :=
  rfl

/-- Subset construction succeeds exactly when there is room for the start and the exploration
succeeds. -/
theorem ofNfa_eq_ok_iff {nfa : Nfa} {limit : Nat} {dfa : Dfa} : ofNfa nfa limit = .ok dfa ↔
    0 < limit ∧ ∃ progress, exploreStart nfa limit = .ok progress ∧ progress.dfa = dfa := by
  rcases Nat.eq_zero_or_pos limit with rfl | room
  · simp [ofNfa_zero]
  · rw [ofNfa_of_pos room]
    cases exploreStart nfa limit with
    | error excess => simp [Except.map]
    | ok progress => simp [Except.map, room]

/-- Subset construction ends with an exploration that has nothing left to try. -/
theorem exploring_of_ofNfa {nfa : Nfa} {limit : Nat} {dfa : Dfa}
    (done : ofNfa nfa limit = .ok dfa) : ∃ progress sets, progress.dfa = dfa ∧
      Exploring nfa progress [] sets ∧ dfa.size ≤ limit := by
  obtain ⟨room, progress, explored, rfl⟩ := ofNfa_eq_ok_iff.mp done
  obtain ⟨sets, exploring, sizeLe⟩ := exploring_of_explore (.initial nfa) room explored
  exact ⟨progress, sets, rfl, exploring, sizeLe⟩

/-- Subset construction determines the nondeterministic automaton within its limit. -/
theorem determines_of_ofNfa {nfa : Nfa} {limit : Nat} {dfa : Dfa}
    (done : ofNfa nfa limit = .ok dfa) : Determines nfa dfa ∧ dfa.size ≤ limit := by
  obtain ⟨progress, sets, rfl, exploring, sizeLe⟩ := exploring_of_ofNfa done
  exact ⟨determines_of_exploring exploring, sizeLe⟩

/-- Subset construction succeeds when there is room for every set of states. -/
theorem exists_ofNfa_eq_ok {nfa : Nfa} {limit : Nat} (enough : 2 ^ nfa.size ≤ limit) :
    ∃ dfa, ofNfa nfa limit = .ok dfa := by
  have room : 0 < limit := Nat.lt_of_lt_of_le (Nat.two_pow_pos _) enough
  obtain ⟨final, explored⟩ := exists_explore_eq_ok (.initial nfa) enough
  exact ⟨final.dfa, ofNfa_eq_ok_iff.mpr ⟨room, final, explored, rfl⟩⟩

end ByteSignature.Dfa
