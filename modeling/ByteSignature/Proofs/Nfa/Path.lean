import ByteSignature.Nfa.Basic
import Mathlib.Computability.Language
import Mathlib.Order.CompletePartialOrder

/-!
# Paths of a nondeterministic automaton

A wiring gives the edges of every number, whether or not it belongs to a state.  A path
along a wiring spells the bytes that its edges read.  The languages that the paths into
one state spell from all others are the least that respect the edges, so an upper bound
on them only has to be checked edge by edge.
-/

namespace ByteSignature

open Computability

/-- What an edge adds to the input of a path: nothing or its byte. -/
def Label.bytes : Label → List UInt8
  | epsilon => []
  | symbol byte => [byte]

namespace Nfa

/-- The edges that leave each number. -/
abbrev Wiring :=
  Nat → List Edge

/-- Some bytes lead from one state to another. -/
inductive Path (wiring : Wiring) : Nat → List UInt8 → Nat → Prop where
  | stay (id : Nat) : Path wiring id [] id
  | step {source target : Nat} {edge : Edge} {rest : List UInt8}
      (edgeMem : edge ∈ wiring source) (path : Path wiring edge.target rest target) :
      Path wiring source (edge.label.bytes ++ rest) target

namespace Path

variable {wiring wiring2 : Wiring} {source middle target : Nat} {input first second : List UInt8}

theorem single {edge : Edge} (edgeMem : edge ∈ wiring source) :
    Path wiring source edge.label.bytes edge.target := by
  have path := Path.step edgeMem (.stay edge.target)
  rwa [List.append_nil] at path

/-- A silent edge in front of a path adds nothing to it. -/
theorem silent (edgeMem : ⟨.epsilon, middle⟩ ∈ wiring source)
    (path : Path wiring middle input target) : Path wiring source input target :=
  .step edgeMem path

theorem append (firstPath : Path wiring source first middle)
    (secondPath : Path wiring middle second target) :
    Path wiring source (first ++ second) target := by
  induction firstPath with
  | stay => exact secondPath
  | step edgeMem _ ih =>
      rw [List.append_assoc]
      exact .step edgeMem (ih secondPath)

/-- A path ends in every set that it starts in and no edge leaves. -/
theorem mem_of_closed {region : Set Nat}
    (closed : ∀ id ∈ region, ∀ edge ∈ wiring id, edge.target ∈ region)
    (path : Path wiring source input target) (sourceMem : source ∈ region) :
    target ∈ region := by
  induction path with
  | stay => exact sourceMem
  | step edgeMem _ ih => exact ih (closed _ sourceMem _ edgeMem)

/-- A path is one along every wiring that has the edges of the set it stays in. -/
theorem mono {region : Set Nat}
    (closed : ∀ id ∈ region, ∀ edge ∈ wiring id, edge.target ∈ region)
    (subset : ∀ id ∈ region, ∀ edge ∈ wiring id, edge ∈ wiring2 id)
    (path : Path wiring source input target) (sourceMem : source ∈ region) :
    Path wiring2 source input target := by
  induction path with
  | stay => exact .stay _
  | step edgeMem _ ih =>
      exact .step (subset _ sourceMem _ edgeMem) (ih (closed _ sourceMem _ edgeMem))

/-- Nothing but the empty path leaves a state without edges. -/
theorem eq_of_wiring_eq_nil (path : Path wiring source input target)
    (terminal : wiring source = []) : input = [] ∧ target = source := by
  cases path with
  | stay => exact ⟨rfl, rfl⟩
  | step edgeMem _ =>
      rw [terminal] at edgeMem
      cases edgeMem

/-- A path that reads a byte takes an edge for it, behind silent ones. -/
theorem exists_edge_of_cons {byte : UInt8} {rest : List UInt8}
    (path : Path wiring source (byte :: rest) target) :
    ∃ before after, Path wiring source [] before ∧
      ⟨.symbol byte, after⟩ ∈ wiring before ∧ Path wiring after rest target := by
  generalize spelled : byte :: rest = input at path
  induction path with
  | stay => cases spelled
  | @step source target edge input edgeMem path ih =>
      rcases edge with ⟨label, middle⟩
      cases label with
      | epsilon =>
          obtain ⟨before, after, silent, read, path⟩ := ih spelled
          exact ⟨before, after, .silent edgeMem silent, read, path⟩
      | symbol other =>
          cases spelled
          exact ⟨source, middle, .stay source, edgeMem, path⟩

end Path

/-! ## Languages of states -/

/-- The inputs that lead from a state to a given one. -/
def residual (wiring : Wiring) (target id : Nat) : Language UInt8 :=
  {input | Path wiring id input target}

theorem nil_mem_residual (wiring : Wiring) (target : Nat) :
    [] ∈ residual wiring target target :=
  Path.stay target

/-- At a state, the languages that are assigned to states respect every edge: what the
edge reads, followed by an input of its target, is an input of the state. -/
def Respects (wiring : Wiring) (label : Nat → Language UInt8) (id : Nat) : Prop :=
  ∀ edge ∈ wiring id, ∀ input ∈ label edge.target, edge.label.bytes ++ input ∈ label id

theorem respects_residual (wiring : Wiring) (target id : Nat) :
    Respects wiring (residual wiring target) id :=
  fun _ edgeMem _ inputMem => Path.step edgeMem inputMem

theorem Respects.mul {wiring : Wiring} {label : Nat → Language UInt8} {id : Nat}
    (respects : Respects wiring label id) (language : Language UInt8) :
    Respects wiring (fun id => label id * language) id := by
  intro edge edgeMem input inputMem
  rcases Language.mem_mul.mp inputMem with ⟨first, firstMem, second, secondMem, rfl⟩
  rw [← List.append_assoc]
  exact Language.append_mem_mul (respects edge edgeMem first firstMem) secondMem

theorem Respects.add {wiring : Wiring} {label label2 : Nat → Language UInt8} {id : Nat}
    (respects : Respects wiring label id) (respects2 : Respects wiring label2 id) :
    Respects wiring (fun id => label id + label2 id) id := by
  intro edge edgeMem input inputMem
  rcases (Language.mem_add _ _ _).mp inputMem with inputMem | inputMem
  · exact (Language.mem_add _ _ _).mpr (Or.inl (respects edge edgeMem input inputMem))
  · exact (Language.mem_add _ _ _).mpr (Or.inr (respects2 edge edgeMem input inputMem))

theorem respects_of_eq_nil {wiring : Wiring} {label : Nat → Language UInt8} {id : Nat}
    (edges : wiring id = []) : Respects wiring label id := by
  intro edge edgeMem
  rw [edges] at edgeMem
  cases edgeMem

/-- A silent edge is respected when the language of its target is part of that of its
source. -/
theorem respects_of_eq_singleton {wiring : Wiring} {label : Nat → Language UInt8}
    {id target : Nat} (edges : wiring id = [⟨.epsilon, target⟩])
    (le : label target ≤ label id) : Respects wiring label id := by
  intro edge edgeMem input inputMem
  rw [edges, List.mem_singleton] at edgeMem
  subst edgeMem
  exact le inputMem

theorem respects_of_eq_pair {wiring : Wiring} {label : Nat → Language UInt8}
    {id target target2 : Nat}
    (edges : wiring id = [⟨.epsilon, target⟩, ⟨.epsilon, target2⟩])
    (le : label target ≤ label id) (le2 : label target2 ≤ label id) :
    Respects wiring label id := by
  intro edge edgeMem input inputMem
  rw [edges, List.mem_pair] at edgeMem
  rcases edgeMem with rfl | rfl
  · exact le inputMem
  · exact le2 inputMem

/-- Languages that respect the edges of a closed set hold what its paths spell. -/
theorem Path.mem_label {wiring : Wiring} {label : Nat → Language UInt8} {region : Set Nat}
    (closed : ∀ id ∈ region, ∀ edge ∈ wiring id, edge.target ∈ region)
    (respects : ∀ id ∈ region, Respects wiring label id) {source target : Nat}
    {input : List UInt8} (path : Path wiring source input target)
    (sourceMem : source ∈ region) (accepts : [] ∈ label target) : input ∈ label source := by
  induction path with
  | stay => exact accepts
  | step edgeMem _ ih =>
      exact respects _ sourceMem _ edgeMem _ (ih (closed _ sourceMem _ edgeMem) accepts)

end Nfa

end ByteSignature
