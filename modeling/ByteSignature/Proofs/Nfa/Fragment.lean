import ByteSignature.Nfa.Builder
import ByteSignature.Proofs.Nfa.Path

/-!
# Fragments and their languages

A fragment realizes a language in a region of a wiring: no edge leaves the region or the
exit, the paths from the entry to the exit spell exactly the language, and every state
of the region lies on such a path.  This file proves what the wiring of each operator
makes of realized operands.  That every input of the result lies in the intended
language is checked edge by edge, with a language for each state; the other direction
composes paths of the operands.
-/

namespace ByteSignature.Nfa

open Computability

/-- No edge of the state leaves the set. -/
def Stays (wiring : Wiring) (region : Set Nat) (id : Nat) : Prop :=
  ∀ edge ∈ wiring id, edge.target ∈ region

/-- The fragment is a closed part of the wiring whose paths spell the language. -/
structure Realizes (wiring : Wiring) (region : Set Nat) (fragment : Fragment)
    (language : Language UInt8) : Prop where
  start_mem : fragment.start ∈ region
  terminate_mem : fragment.terminate ∈ region
  closed : ∀ id ∈ region, Stays wiring region id
  terminal : wiring fragment.terminate = []
  path_iff : ∀ input, Path wiring fragment.start input fragment.terminate ↔ input ∈ language
  reachable : ∀ id ∈ region, ∃ input, Path wiring fragment.start input id
  live : ∀ id ∈ region, ∃ input, Path wiring id input fragment.terminate

/-- The edges of a region are kept, except that the exit of its fragment may gain some. -/
def KeepsInside (wiring wiring2 : Wiring) (region : Set Nat) (fragment : Fragment) : Prop :=
  ∀ id ∈ region, id ≠ fragment.terminate → wiring2 id = wiring id

/-! ## Edges of single states -/

section Edges

variable {wiring : Wiring} {region : Set Nat} {id target target2 : Nat}

theorem stays_of_eq_nil (edges : wiring id = []) : Stays wiring region id := by
  simp [Stays, edges]

theorem stays_of_eq_singleton (edges : wiring id = [⟨.epsilon, target⟩])
    (targetMem : target ∈ region) : Stays wiring region id := by
  simpa [Stays, edges]

theorem stays_of_eq_pair (edges : wiring id = [⟨.epsilon, target⟩, ⟨.epsilon, target2⟩])
    (targetMem : target ∈ region) (target2Mem : target2 ∈ region) : Stays wiring region id := by
  simp [Stays, edges, targetMem, target2Mem]

theorem path_of_eq_singleton (edges : wiring id = [⟨.epsilon, target⟩]) {input : List UInt8}
    {last : Nat} (path : Path wiring target input last) : Path wiring id input last :=
  .silent (by simp [edges]) path

theorem path_of_eq_pair_left
    (edges : wiring id = [⟨.epsilon, target⟩, ⟨.epsilon, target2⟩]) {input : List UInt8}
    {last : Nat} (path : Path wiring target input last) : Path wiring id input last :=
  .silent (by simp [edges]) path

theorem path_of_eq_pair_right
    (edges : wiring id = [⟨.epsilon, target⟩, ⟨.epsilon, target2⟩]) {input : List UInt8}
    {last : Nat} (path : Path wiring target2 input last) : Path wiring id input last :=
  .silent (by simp [edges]) path

end Edges

/-! ## Operands between a new entry and a new exit -/

/-- Languages for the states of a framed region: everything is left to read at the entry,
nothing at the exit. -/
def framed (start terminate : Nat) (whole : Language UInt8) (inside : Nat → Language UInt8) :
    Nat → Language UInt8 :=
  Function.update (Function.update inside terminate 1) start whole

section Framed

variable {wiring : Wiring} {region : Set Nat} {start terminate : Nat}
  {whole : Language UInt8} (inside : Nat → Language UInt8)

theorem framed_start : framed start terminate whole inside start = whole := by
  simp [framed]

theorem framed_terminate (distinct : start ≠ terminate) :
    framed start terminate whole inside terminate = 1 := by
  simp [framed, Function.update_of_ne distinct.symm]

theorem framed_of_mem (startFresh : start ∉ region) (terminateFresh : terminate ∉ region)
    {id : Nat} (idMem : id ∈ region) : framed start terminate whole inside id = inside id := by
  rw [framed, Function.update_of_ne (ne_of_mem_of_not_mem idMem startFresh),
    Function.update_of_ne (ne_of_mem_of_not_mem idMem terminateFresh)]

theorem respects_framed (startFresh : start ∉ region) (terminateFresh : terminate ∉ region)
    {id : Nat} (idMem : id ∈ region) (stays : Stays wiring region id)
    (respects : Respects wiring inside id) :
    Respects wiring (framed start terminate whole inside) id := by
  intro edge edgeMem input inputMem
  rw [framed_of_mem inside startFresh terminateFresh (stays edge edgeMem)] at inputMem
  rw [framed_of_mem inside startFresh terminateFresh idMem]
  exact respects edge edgeMem input inputMem

/-- What a path through the frame spells is in the language of its entry. -/
theorem mem_of_framed_path (distinct : start ≠ terminate)
    (closed : ∀ id ∈ region ∪ {start, terminate}, Stays wiring (region ∪ {start, terminate}) id)
    (terminal : wiring terminate = [])
    (atStart : Respects wiring (framed start terminate whole inside) start)
    (atRegion : ∀ id ∈ region, Respects wiring (framed start terminate whole inside) id)
    {input : List UInt8} (path : Path wiring start input terminate) : input ∈ whole := by
  have respects : ∀ id ∈ region ∪ {start, terminate},
      Respects wiring (framed start terminate whole inside) id := by
    rintro id (idMem | (rfl | rfl))
    · exact atRegion id idMem
    · exact atStart
    · exact respects_of_eq_nil terminal
  have inputMem := path.mem_label closed respects (Or.inr (Or.inl rfl)) (by
    rw [framed_terminate inside distinct]
    exact Language.nil_mem_one)
  rwa [framed_start] at inputMem

end Framed

namespace Realizes

variable {wiring wiring2 : Wiring} {region region2 : Set Nat} {fragment fragment2 : Fragment}
  {language language2 : Language UInt8}

theorem residual_start (realizes : Realizes wiring region fragment language) :
    residual wiring fragment.terminate fragment.start = language := by
  ext input
  exact realizes.path_iff input

/-- No input leads out of the region. -/
theorem residual_eq_zero (realizes : Realizes wiring region fragment language) {id target : Nat}
    (idMem : id ∈ region) (targetNotMem : target ∉ region) :
    residual wiring target id = 0 := by
  ext input
  constructor
  · intro path
    exact absurd (Path.mem_of_closed realizes.closed path idMem) targetNotMem
  · intro inputMem
    exact absurd inputMem (Language.notMem_zero input)

/-- Nothing changes for a fragment whose region keeps its edges. -/
theorem congr (realizes : Realizes wiring region fragment language)
    (keeps : ∀ id ∈ region, wiring2 id = wiring id) :
    Realizes wiring2 region fragment language := by
  have closed2 : ∀ id ∈ region, Stays wiring2 region id := by
    intro id idMem edge edgeMem
    rw [keeps id idMem] at edgeMem
    exact realizes.closed id idMem edge edgeMem
  have path_iff : ∀ {id}, id ∈ region → ∀ {input target},
      Path wiring2 id input target ↔ Path wiring id input target := by
    intro id idMem input target
    constructor
    · intro path
      exact path.mono closed2 (fun id idMem edge edgeMem => keeps id idMem ▸ edgeMem) idMem
    · intro path
      exact path.mono realizes.closed
        (fun id idMem edge edgeMem => (keeps id idMem).symm ▸ edgeMem) idMem
  exact {
    start_mem := realizes.start_mem
    terminate_mem := realizes.terminate_mem
    closed := closed2
    terminal := (keeps _ realizes.terminate_mem).trans realizes.terminal
    path_iff := fun input => (path_iff realizes.start_mem).trans (realizes.path_iff input)
    reachable := fun id idMem =>
      (realizes.reachable id idMem).imp fun _ path => (path_iff realizes.start_mem).mpr path
    live := fun id idMem =>
      (realizes.live id idMem).imp fun _ path => (path_iff idMem).mpr path }

/-- The paths of an operand are paths of whatever is built around it. -/
theorem path_of_keepsInside (realizes : Realizes wiring region fragment language)
    (keeps : KeepsInside wiring wiring2 region fragment) {source target : Nat}
    {input : List UInt8} (sourceMem : source ∈ region) (path : Path wiring source input target) :
    Path wiring2 source input target := by
  refine path.mono realizes.closed ?_ sourceMem
  intro id idMem edge edgeMem
  by_cases isExit : id = fragment.terminate
  · rw [isExit, realizes.terminal] at edgeMem
    cases edgeMem
  · rwa [keeps id idMem isExit]

/-- Whatever leads to the entry of an operand leads to its states. -/
theorem exists_path_to (realizes : Realizes wiring region fragment language)
    (keeps : KeepsInside wiring wiring2 region fragment) {source : Nat} {before : List UInt8}
    (entry : Path wiring2 source before fragment.start) :
    ∀ id ∈ region, ∃ input, Path wiring2 source input id := by
  intro id idMem
  obtain ⟨input, path⟩ := realizes.reachable id idMem
  exact ⟨before ++ input,
    entry.append (realizes.path_of_keepsInside keeps realizes.start_mem path)⟩

/-- Wherever the exit of an operand leads, its states lead. -/
theorem exists_path_from (realizes : Realizes wiring region fragment language)
    (keeps : KeepsInside wiring wiring2 region fragment) {target : Nat} {after : List UInt8}
    (exit : Path wiring2 fragment.terminate after target) :
    ∀ id ∈ region, ∃ input, Path wiring2 id input target := by
  intro id idMem
  obtain ⟨input, path⟩ := realizes.live id idMem
  exact ⟨input ++ after, (realizes.path_of_keepsInside keeps idMem path).append exit⟩

/-- Every input of an operand leads through it. -/
theorem path_through (realizes : Realizes wiring region fragment language)
    (keeps : KeepsInside wiring wiring2 region fragment) {input : List UInt8}
    (inputMem : input ∈ language) : Path wiring2 fragment.start input fragment.terminate :=
  realizes.path_of_keepsInside keeps realizes.start_mem ((realizes.path_iff input).mpr inputMem)

/-- Inside an operand, languages that respect the old edges respect the new ones, if they
do so at the exit. -/
theorem respects_of_keepsInside (keeps : KeepsInside wiring wiring2 region fragment)
    {label : Nat → Language UInt8} (inside : ∀ id ∈ region, Respects wiring label id)
    (exit : Respects wiring2 label fragment.terminate) :
    ∀ id ∈ region, Respects wiring2 label id := by
  intro id idMem
  by_cases isExit : id = fragment.terminate
  · rwa [isExit]
  · intro edge edgeMem
    rw [keeps id idMem isExit] at edgeMem
    exact inside id idMem edge edgeMem

/-- An operand stays in a larger set when the new edges at its exit do. -/
theorem stays_of_keepsInside (realizes : Realizes wiring region fragment language)
    (keeps : KeepsInside wiring wiring2 region fragment) {larger : Set Nat}
    (subset : region ⊆ larger) (exit : Stays wiring2 larger fragment.terminate) :
    ∀ id ∈ region, Stays wiring2 larger id := by
  intro id idMem
  by_cases isExit : id = fragment.terminate
  · rwa [isExit]
  · intro edge edgeMem
    rw [keeps id idMem isExit] at edgeMem
    exact subset (realizes.closed id idMem edge edgeMem)

/-! ## One byte -/

theorem symbol {start terminate : Nat} {byte : UInt8} (distinct : start ≠ terminate)
    (startEdges : wiring start = [⟨.symbol byte, terminate⟩])
    (terminal : wiring terminate = []) :
    Realizes wiring {start, terminate} ⟨start, terminate⟩ {[byte]} := by
  have across : Path wiring start [byte] terminate := by
    have edgeMem : ⟨.symbol byte, terminate⟩ ∈ wiring start := by
      rw [startEdges]
      exact List.mem_singleton_self _
    exact Path.single edgeMem
  exact {
    start_mem := Or.inl rfl
    terminate_mem := Or.inr rfl
    closed := by
      rintro id (rfl | rfl)
      · intro edge edgeMem
        rw [startEdges, List.mem_singleton] at edgeMem
        rw [edgeMem]
        exact Or.inr rfl
      · exact stays_of_eq_nil terminal
    terminal := terminal
    path_iff := by
      intro input
      constructor
      · intro path
        cases path with
        | stay => exact absurd rfl distinct
        | step edgeMem path =>
            rw [startEdges, List.mem_singleton] at edgeMem
            subst edgeMem
            rw [(path.eq_of_wiring_eq_nil terminal).1]
            rfl
      · rintro rfl
        exact across
    reachable := by
      rintro id (rfl | rfl)
      · exact ⟨[], .stay _⟩
      · exact ⟨[byte], across⟩
    live := by
      rintro id (rfl | rfl)
      · exact ⟨[byte], across⟩
      · exact ⟨[], .stay _⟩ }

/-! ## Concatenation -/

section Concat

variable (first : Realizes wiring region fragment language)
  (second : Realizes wiring region2 fragment2 language2) (disjoint : Disjoint region region2)
  (keeps : KeepsInside wiring wiring2 region fragment)
  (keeps2 : ∀ id ∈ region2, wiring2 id = wiring id)
  (exit : wiring2 fragment.terminate = [⟨.epsilon, fragment2.start⟩])

include first second keeps keeps2 exit

theorem closed_concat : ∀ id ∈ region ∪ region2, Stays wiring2 (region ∪ region2) id := by
  rintro id (idMem | idMem)
  · exact first.stays_of_keepsInside keeps Set.subset_union_left
      (stays_of_eq_singleton exit (Or.inr second.start_mem)) id idMem
  · intro edge edgeMem
    exact Or.inr ((second.congr keeps2).closed id idMem edge edgeMem)

/-- A path of the first operand goes on into the second. -/
theorem path_concat {id target : Nat} {input rest : List UInt8} (idMem : id ∈ region)
    (path : Path wiring id input fragment.terminate)
    (restPath : Path wiring fragment2.start rest target) :
    Path wiring2 id (input ++ rest) target := by
  have second2 : Path wiring2 fragment2.start rest target :=
    restPath.mono second.closed (fun id idMem edge edgeMem => (keeps2 id idMem).symm ▸ edgeMem)
      second.start_mem
  exact (first.path_of_keepsInside keeps idMem path).append (path_of_eq_singleton exit second2)

include disjoint

theorem mem_concat_of_path {input : List UInt8}
    (path : Path wiring2 fragment.start input fragment2.terminate) :
    input ∈ language * language2 := by
  have leavesSecond : residual wiring fragment.terminate fragment2.start = 0 :=
    second.residual_eq_zero second.start_mem fun terminateMem =>
      Set.disjoint_left.mp disjoint first.terminate_mem terminateMem
  have leavesFirst : residual wiring fragment2.terminate fragment.start = 0 :=
    first.residual_eq_zero first.start_mem fun terminateMem =>
      Set.disjoint_left.mp disjoint terminateMem second.terminate_mem
  -- In the first operand its rest and the second operand are left to read.
  have inside (id : Nat) : Respects wiring (fun id =>
      residual wiring fragment.terminate id * language2 +
        residual wiring fragment2.terminate id) id :=
    ((respects_residual wiring _ id).mul language2).add (respects_residual wiring _ id)
  have respects : ∀ id ∈ region ∪ region2, Respects wiring2 (fun id =>
      residual wiring fragment.terminate id * language2 +
        residual wiring fragment2.terminate id) id := by
    rintro id (idMem | idMem)
    · refine respects_of_keepsInside keeps (fun id _ => inside id) ?_ id idMem
      apply respects_of_eq_singleton exit
      intro rest restMem
      rw [leavesSecond, zero_mul, zero_add, second.residual_start] at restMem
      exact Or.inl (Language.append_mem_mul (nil_mem_residual _ _) restMem)
    · intro edge edgeMem
      rw [keeps2 id idMem] at edgeMem
      exact inside id edge edgeMem
  have inputMem := path.mem_label (closed_concat first second keeps keeps2 exit) respects
    (Or.inl first.start_mem) (Or.inr (nil_mem_residual _ _))
  rwa [leavesFirst, add_zero, first.residual_start] at inputMem

theorem concat : Realizes wiring2 (region ∪ region2) ⟨fragment.start, fragment2.terminate⟩
    (language * language2) where
  start_mem := Or.inl first.start_mem
  terminate_mem := Or.inr second.terminate_mem
  closed := closed_concat first second keeps keeps2 exit
  terminal := (second.congr keeps2).terminal
  path_iff input := by
    constructor
    · exact mem_concat_of_path first second disjoint keeps keeps2 exit
    · intro inputMem
      rcases Language.mem_mul.mp inputMem with ⟨before, beforeMem, after, afterMem, rfl⟩
      exact path_concat first second keeps keeps2 exit first.start_mem
        ((first.path_iff before).mpr beforeMem) ((second.path_iff after).mpr afterMem)
  reachable := by
    rintro id (idMem | idMem)
    · obtain ⟨input, path⟩ := first.reachable id idMem
      exact ⟨input, first.path_of_keepsInside keeps first.start_mem path⟩
    · obtain ⟨before, beforePath⟩ := first.live _ first.start_mem
      obtain ⟨input, path⟩ := second.reachable id idMem
      exact ⟨before ++ input,
        path_concat first second keeps keeps2 exit first.start_mem beforePath path⟩
  live := by
    rintro id (idMem | idMem)
    · obtain ⟨before, beforePath⟩ := first.live id idMem
      obtain ⟨after, afterPath⟩ := second.live _ second.start_mem
      exact ⟨before ++ after,
        path_concat first second keeps keeps2 exit idMem beforePath afterPath⟩
    · exact (second.congr keeps2).live id idMem

end Concat

/-! ## Choice -/

/-- Inside one of two operands its rest is left to read.  The other operand adds nothing. -/
def residualEither (wiring : Wiring) (terminate terminate2 id : Nat) : Language UInt8 :=
  residual wiring terminate id + residual wiring terminate2 id

section Alternate

variable (first : Realizes wiring region fragment language)
  (second : Realizes wiring region2 fragment2 language2)
  (keeps : KeepsInside wiring wiring2 region fragment)
  (keeps2 : KeepsInside wiring wiring2 region2 fragment2) {start terminate : Nat}
  (startEdges : wiring2 start = [⟨.epsilon, fragment.start⟩, ⟨.epsilon, fragment2.start⟩])
  (terminal : wiring2 terminate = [])
  (exit : wiring2 fragment.terminate = [⟨.epsilon, terminate⟩])
  (exit2 : wiring2 fragment2.terminate = [⟨.epsilon, terminate⟩])

include first second keeps keeps2 startEdges terminal exit exit2

theorem closed_alternate : ∀ id ∈ region ∪ region2 ∪ {start, terminate},
    Stays wiring2 (region ∪ region2 ∪ {start, terminate}) id := by
  have subset : region ⊆ region ∪ region2 ∪ {start, terminate} :=
    fun id idMem => Or.inl (Or.inl idMem)
  have subset2 : region2 ⊆ region ∪ region2 ∪ {start, terminate} :=
    fun id idMem => Or.inl (Or.inr idMem)
  have exitMem : terminate ∈ region ∪ region2 ∪ {start, terminate} := Or.inr (Or.inr rfl)
  rintro id ((idMem | idMem) | (rfl | rfl))
  · exact first.stays_of_keepsInside keeps subset (stays_of_eq_singleton exit exitMem) id idMem
  · exact second.stays_of_keepsInside keeps2 subset2 (stays_of_eq_singleton exit2 exitMem)
      id idMem
  · exact stays_of_eq_pair startEdges (subset first.start_mem) (subset2 second.start_mem)
  · exact stays_of_eq_nil terminal

variable (disjoint : Disjoint region region2) (startFresh : start ∉ region ∪ region2)
  (terminateFresh : terminate ∉ region ∪ region2) (distinct : start ≠ terminate)

include disjoint startFresh terminateFresh distinct

theorem mem_add_of_path {input : List UInt8} (path : Path wiring2 start input terminate) :
    input ∈ language + language2 := by
  have leavesFirst : residual wiring fragment2.terminate fragment.start = 0 :=
    first.residual_eq_zero first.start_mem fun terminateMem =>
      Set.disjoint_left.mp disjoint terminateMem second.terminate_mem
  have leavesSecond : residual wiring fragment.terminate fragment2.start = 0 :=
    second.residual_eq_zero second.start_mem fun terminateMem =>
      Set.disjoint_left.mp disjoint first.terminate_mem terminateMem
  have respects {id : Nat} (idMem : id ∈ region ∪ region2) :
      Respects wiring (framed start terminate (language + language2)
        (residualEither wiring fragment.terminate fragment2.terminate)) id := by
    apply respects_framed _ startFresh terminateFresh idMem
    · rcases idMem with idMem | idMem
      · exact fun edge edgeMem => Or.inl (first.closed id idMem edge edgeMem)
      · exact fun edge edgeMem => Or.inr (second.closed id idMem edge edgeMem)
    · exact (respects_residual wiring _ id).add (respects_residual wiring _ id)
  have atExit {id : Nat} (idMem : id ∈ region ∪ region2)
      (nilMem : [] ∈ residualEither wiring fragment.terminate fragment2.terminate id)
      (edges : wiring2 id = [⟨.epsilon, terminate⟩]) :
      Respects wiring2 (framed start terminate (language + language2)
        (residualEither wiring fragment.terminate fragment2.terminate)) id := by
    apply respects_of_eq_singleton edges
    rw [framed_terminate _ distinct, framed_of_mem _ startFresh terminateFresh idMem]
    rintro rest rfl
    exact nilMem
  apply mem_of_framed_path (residualEither wiring fragment.terminate fragment2.terminate) distinct
    (closed_alternate first second keeps keeps2 startEdges terminal exit exit2) terminal _ _ path
  · apply respects_of_eq_pair startEdges
    · rw [framed_start, framed_of_mem _ startFresh terminateFresh (Or.inl first.start_mem)]
      simp [residualEither, first.residual_start, leavesFirst]
    · rw [framed_start, framed_of_mem _ startFresh terminateFresh (Or.inr second.start_mem)]
      simp [residualEither, second.residual_start, leavesSecond]
  · rintro id (idMem | idMem)
    · exact respects_of_keepsInside keeps (fun id idMem => respects (Or.inl idMem))
        (atExit (Or.inl first.terminate_mem) (Or.inl (nil_mem_residual _ _)) exit) id idMem
    · exact respects_of_keepsInside keeps2 (fun id idMem => respects (Or.inr idMem))
        (atExit (Or.inr second.terminate_mem) (Or.inr (nil_mem_residual _ _)) exit2) id idMem

theorem alternate : Realizes wiring2 (region ∪ region2 ∪ {start, terminate}) ⟨start, terminate⟩
    (language + language2) where
  start_mem := Or.inr (Or.inl rfl)
  terminate_mem := Or.inr (Or.inr rfl)
  closed := closed_alternate first second keeps keeps2 startEdges terminal exit exit2
  terminal := terminal
  path_iff input := by
    constructor
    · exact mem_add_of_path first second keeps keeps2 startEdges terminal exit exit2 disjoint
        startFresh terminateFresh distinct
    · rintro (inputMem | inputMem)
      · rw [← List.append_nil input]
        exact path_of_eq_pair_left startEdges ((first.path_through keeps inputMem).append
          (path_of_eq_singleton exit (.stay _)))
      · rw [← List.append_nil input]
        exact path_of_eq_pair_right startEdges ((second.path_through keeps2 inputMem).append
          (path_of_eq_singleton exit2 (.stay _)))
  reachable := by
    rintro id ((idMem | idMem) | (rfl | rfl))
    · exact first.exists_path_to keeps (path_of_eq_pair_left startEdges (.stay _)) id idMem
    · exact second.exists_path_to keeps2 (path_of_eq_pair_right startEdges (.stay _)) id idMem
    · exact ⟨[], .stay _⟩
    · obtain ⟨input, path⟩ := first.exists_path_to keeps
        (path_of_eq_pair_left startEdges (.stay _)) _ first.terminate_mem
      exact ⟨input ++ [], path.append (path_of_eq_singleton exit (.stay _))⟩
  live := by
    rintro id ((idMem | idMem) | (rfl | rfl))
    · exact first.exists_path_from keeps (path_of_eq_singleton exit (.stay _)) id idMem
    · exact second.exists_path_from keeps2 (path_of_eq_singleton exit2 (.stay _)) id idMem
    · obtain ⟨input, path⟩ := first.exists_path_from keeps
        (path_of_eq_singleton exit (.stay _)) _ first.start_mem
      exact ⟨input, path_of_eq_pair_left startEdges path⟩
    · exact ⟨[], .stay _⟩

end Alternate

/-! ## Option -/

section Optional

variable (operand : Realizes wiring region fragment language)
  (keeps : ∀ id ∈ region, wiring2 id = wiring id) {start : Nat}
  (startEdges : wiring2 start = [⟨.epsilon, fragment.start⟩, ⟨.epsilon, fragment.terminate⟩])
  (startFresh : start ∉ region)

include operand keeps startEdges startFresh

theorem optional : Realizes wiring2 (region ∪ {start}) ⟨start, fragment.terminate⟩
    (1 + language) where
  start_mem := Or.inr rfl
  terminate_mem := Or.inl operand.terminate_mem
  closed := by
    rintro id (idMem | rfl)
    · exact fun edge edgeMem => Or.inl ((operand.congr keeps).closed id idMem edge edgeMem)
    · exact stays_of_eq_pair startEdges (Or.inl operand.start_mem) (Or.inl operand.terminate_mem)
  terminal := (operand.congr keeps).terminal
  path_iff input := by
    have operand2 := operand.congr keeps
    constructor
    · intro path
      cases path with
      | stay => exact absurd operand.terminate_mem startFresh
      | step edgeMem path =>
          rw [startEdges, List.mem_pair] at edgeMem
          rcases edgeMem with rfl | rfl
          · exact Or.inr ((operand2.path_iff _).mp path)
          · exact Or.inl (path.eq_of_wiring_eq_nil operand2.terminal).1
    · rintro (rfl | inputMem)
      · exact path_of_eq_pair_right startEdges (.stay _)
      · exact path_of_eq_pair_left startEdges ((operand2.path_iff input).mpr inputMem)
  reachable := by
    rintro id (idMem | rfl)
    · obtain ⟨input, path⟩ := (operand.congr keeps).reachable id idMem
      exact ⟨input, path_of_eq_pair_left startEdges path⟩
    · exact ⟨[], .stay _⟩
  live := by
    rintro id (idMem | rfl)
    · exact (operand.congr keeps).live id idMem
    · exact ⟨[], path_of_eq_pair_right startEdges (.stay _)⟩

end Optional

/-! ## Loops -/

section Loop

variable (operand : Realizes wiring region fragment language)
  (keeps : KeepsInside wiring wiring2 region fragment) {start terminate : Nat}

include operand keeps

theorem closed_frame (terminal : wiring2 terminate = [])
    (atStart : Stays wiring2 (region ∪ {start, terminate}) start)
    (atExit : Stays wiring2 (region ∪ {start, terminate}) fragment.terminate) :
    ∀ id ∈ region ∪ {start, terminate}, Stays wiring2 (region ∪ {start, terminate}) id := by
  rintro id (idMem | (rfl | rfl))
  · exact operand.stays_of_keepsInside keeps Set.subset_union_left atExit id idMem
  · exact atStart
  · exact stays_of_eq_nil terminal

/-- When the exit of an operand leads back to its entry and out, it leads out on any number
of inputs of the operand. -/
theorem path_of_mem_kstar (back : Path wiring2 fragment.terminate [] fragment.start)
    (out : Path wiring2 fragment.terminate [] terminate) {input : List UInt8}
    (inputMem : input ∈ language∗) : Path wiring2 fragment.terminate input terminate := by
  rcases Language.mem_kstar.mp inputMem with ⟨words, rfl, wordsMem⟩
  clear inputMem
  induction words with
  | nil => exact out
  | cons word words ih =>
      have wordPath := operand.path_through keeps (wordsMem word List.mem_cons_self)
      have rest := ih fun other otherMem => wordsMem other (List.mem_cons_of_mem _ otherMem)
      exact back.append (wordPath.append rest)

/-- Any number of passes through an operand, once an edge leads into it. -/
theorem path_of_mem_mul_kstar (entry : Path wiring2 start [] fragment.start)
    (back : Path wiring2 fragment.terminate [] fragment.start)
    (out : Path wiring2 fragment.terminate [] terminate) {input : List UInt8}
    (inputMem : input ∈ language * language∗) : Path wiring2 start input terminate := by
  rcases Language.mem_mul.mp inputMem with ⟨first, firstMem, rest, restMem, rfl⟩
  exact entry.append ((operand.path_through keeps firstMem).append
    (operand.path_of_mem_kstar keeps back out restMem))

variable (startFresh : start ∉ region) (terminateFresh : terminate ∉ region)
  (distinct : start ≠ terminate)

include startFresh terminateFresh distinct

/-- What a path through a looping frame spells, by the languages of the frame: inside the
operand its rest and any number of further passes are left to read. -/
theorem mem_of_loop_path {whole : Language UInt8}
    (closed : ∀ id ∈ region ∪ {start, terminate}, Stays wiring2 (region ∪ {start, terminate}) id)
    (terminal : wiring2 terminate = [])
    (atStart : Respects wiring2 (framed start terminate whole fun id =>
      residual wiring fragment.terminate id * language∗) start)
    (atExit : Respects wiring2 (framed start terminate whole fun id =>
      residual wiring fragment.terminate id * language∗) fragment.terminate)
    {input : List UInt8} (path : Path wiring2 start input terminate) : input ∈ whole := by
  apply mem_of_framed_path _ distinct closed terminal atStart _ path
  apply respects_of_keepsInside keeps _ atExit
  intro id idMem
  exact respects_framed _ startFresh terminateFresh idMem (operand.closed id idMem)
    ((respects_residual wiring _ id).mul _)

omit keeps distinct in
theorem framed_loop_start (whole : Language UInt8) :
    framed start terminate whole (fun id => residual wiring fragment.terminate id * language∗)
      fragment.start = language * language∗ := by
  rw [framed_of_mem _ startFresh terminateFresh operand.start_mem, operand.residual_start]

omit keeps distinct in
theorem kstar_le_framed_loop_terminate (whole : Language UInt8) :
    language∗ ≤ framed start terminate whole
      (fun id => residual wiring fragment.terminate id * language∗) fragment.terminate := by
  rw [framed_of_mem _ startFresh terminateFresh operand.terminate_mem]
  intro input inputMem
  exact Language.append_mem_mul (nil_mem_residual _ _) inputMem

end Loop

section Kleene

variable (operand : Realizes wiring region fragment language)
  (keeps : KeepsInside wiring wiring2 region fragment) {start terminate : Nat}
  (startEdges : wiring2 start = [⟨.epsilon, fragment.start⟩, ⟨.epsilon, terminate⟩])
  (terminal : wiring2 terminate = [])
  (exit : wiring2 fragment.terminate = [⟨.epsilon, start⟩])
  (startFresh : start ∉ region) (terminateFresh : terminate ∉ region)
  (distinct : start ≠ terminate)

include operand keeps startEdges terminal exit startFresh terminateFresh distinct

theorem kleene : Realizes wiring2 (region ∪ {start, terminate}) ⟨start, terminate⟩
    language∗ := by
  have entry : Path wiring2 start [] fragment.start := path_of_eq_pair_left startEdges (.stay _)
  have skip : Path wiring2 start [] terminate := path_of_eq_pair_right startEdges (.stay _)
  have back : Path wiring2 fragment.terminate [] fragment.start :=
    path_of_eq_singleton exit entry
  have out : Path wiring2 fragment.terminate [] terminate := path_of_eq_singleton exit skip
  have closed := operand.closed_frame keeps terminal
    (stays_of_eq_pair startEdges (Or.inl operand.start_mem) (Or.inr (Or.inr rfl)))
    (stays_of_eq_singleton exit (Or.inr (Or.inl rfl)))
  exact {
    start_mem := Or.inr (Or.inl rfl)
    terminate_mem := Or.inr (Or.inr rfl)
    closed := closed
    terminal := terminal
    path_iff := by
      intro input
      constructor
      · refine operand.mem_of_loop_path keeps startFresh terminateFresh distinct closed terminal
          ?_ ?_
        · apply respects_of_eq_pair startEdges
          · rw [framed_start, operand.framed_loop_start startFresh terminateFresh]
            exact mul_kstar_le_kstar
          · rw [framed_start, framed_terminate _ distinct]
            exact one_le_kstar
        · apply respects_of_eq_singleton exit
          rw [framed_start]
          exact operand.kstar_le_framed_loop_terminate startFresh terminateFresh _
      · intro inputMem
        rw [← Language.one_add_self_mul_kstar_eq_kstar] at inputMem
        rcases inputMem with rfl | inputMem
        · exact skip
        · exact operand.path_of_mem_mul_kstar keeps entry back out inputMem
    reachable := by
      rintro id (idMem | (rfl | rfl))
      · exact operand.exists_path_to keeps entry id idMem
      · exact ⟨[], .stay _⟩
      · exact ⟨[], skip⟩
    live := by
      rintro id (idMem | (rfl | rfl))
      · exact operand.exists_path_from keeps out id idMem
      · exact ⟨[], skip⟩
      · exact ⟨[], .stay _⟩ }

end Kleene

section Positive

variable (operand : Realizes wiring region fragment language)
  (keeps : KeepsInside wiring wiring2 region fragment) {start terminate : Nat}
  (startEdges : wiring2 start = [⟨.epsilon, fragment.start⟩])
  (terminal : wiring2 terminate = [])
  (exit : wiring2 fragment.terminate = [⟨.epsilon, start⟩, ⟨.epsilon, terminate⟩])
  (startFresh : start ∉ region) (terminateFresh : terminate ∉ region)
  (distinct : start ≠ terminate)

include operand keeps startEdges terminal exit startFresh terminateFresh distinct

theorem positive : Realizes wiring2 (region ∪ {start, terminate}) ⟨start, terminate⟩
    (language * language∗) := by
  have entry : Path wiring2 start [] fragment.start := path_of_eq_singleton startEdges (.stay _)
  have back : Path wiring2 fragment.terminate [] fragment.start :=
    path_of_eq_pair_left exit entry
  have out : Path wiring2 fragment.terminate [] terminate := path_of_eq_pair_right exit (.stay _)
  have closed := operand.closed_frame keeps terminal
    (stays_of_eq_singleton startEdges (Or.inl operand.start_mem))
    (stays_of_eq_pair exit (Or.inr (Or.inl rfl)) (Or.inr (Or.inr rfl)))
  exact {
    start_mem := Or.inr (Or.inl rfl)
    terminate_mem := Or.inr (Or.inr rfl)
    closed := closed
    terminal := terminal
    path_iff := by
      intro input
      constructor
      · refine operand.mem_of_loop_path keeps startFresh terminateFresh distinct closed terminal
          ?_ ?_
        · apply respects_of_eq_singleton startEdges
          rw [framed_start, operand.framed_loop_start startFresh terminateFresh]
        · have kstar_le := operand.kstar_le_framed_loop_terminate startFresh terminateFresh
            (language * language∗)
          apply respects_of_eq_pair exit
          · rw [framed_start]
            exact mul_kstar_le_kstar.trans kstar_le
          · rw [framed_terminate _ distinct]
            exact one_le_kstar.trans kstar_le
      · exact operand.path_of_mem_mul_kstar keeps entry back out
    reachable := by
      rintro id (idMem | (rfl | rfl))
      · exact operand.exists_path_to keeps entry id idMem
      · exact ⟨[], .stay _⟩
      · obtain ⟨input, path⟩ := operand.exists_path_to keeps entry _ operand.terminate_mem
        exact ⟨input ++ [], path.append out⟩
    live := by
      rintro id (idMem | (rfl | rfl))
      · exact operand.exists_path_from keeps out id idMem
      · obtain ⟨input, path⟩ := operand.exists_path_from keeps out _ operand.start_mem
        exact ⟨[] ++ input, entry.append path⟩
      · exact ⟨[], .stay _⟩ }

end Positive

end Realizes

end ByteSignature.Nfa
