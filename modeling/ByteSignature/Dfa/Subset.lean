import ByteSignature.Dfa.Basic
import ByteSignature.Limit
import ByteSignature.Nfa.Basic
import Std.Data.HashMap.Lemmas

/-!
# Subset construction

Each state of the deterministic automaton stands for a closed set of states of the
nondeterministic one.  Sets are explored depth first from the closure of the start;
the bytes that leave a set are tried in the order of its members' edges, and a set
gets the next free number when it is first met.  A state is accepting when its set
holds the accepting state.
-/

namespace ByteSignature.Dfa

/-- The number of states that may exist unless the caller says otherwise. -/
def defaultLimit : Nat :=
  tableStateSpace

namespace Subset

/-- The automaton built so far and the numbers of the sets met so far. -/
structure Progress where
  dfa : Dfa
  numbers : Std.HashMap (List Nat) Nat

/-- A state, its set, and the bytes that are still to be tried. -/
structure Frame where
  id : Nat
  set : List Nat
  symbols : List UInt8

/-- How much a stack of frames still holds. -/
def work : List Frame → Nat
  | [] => 0
  | frame :: stack => frame.symbols.length + 1 + work stack

/-- Nothing built yet. -/
def Progress.initial : Progress where
  dfa := .empty
  numbers := ∅

/-- Give the next number to a set. -/
def Progress.register (nfa : Nfa) (progress : Progress) (set : List Nat) : Progress where
  dfa := progress.dfa.addState (set.contains nfa.terminate)
  numbers := progress.numbers.insert set progress.dfa.size

/-- Add an edge between two numbered sets. -/
def Progress.connect (progress : Progress) (source : Nat) (symbol : UInt8)
    (target : Nat) : Progress :=
  { progress with dfa := progress.dfa.addEdge source symbol target }

/-- The report that one state too many is needed. -/
def excess (limit : Nat) (progress : Progress) : LimitExceeded :=
  ⟨.dfaStates, limit, progress.dfa.size + 1⟩

/-- Try the bytes of the topmost frame, and go into each set that is met for the first
time before trying the next byte. -/
def explore (nfa : Nfa) (limit : Nat) :
    Progress → List Frame → Except LimitExceeded Progress
  | progress, [] => .ok progress
  | progress, ⟨_, _, []⟩ :: stack => explore nfa limit progress stack
  | progress, ⟨id, set, symbol :: symbols⟩ :: stack =>
      let next := nfa.closure (nfa.move set symbol)
      let rest := ⟨id, set, symbols⟩ :: stack
      match progress.numbers[next]? with
      | some target => explore nfa limit (progress.connect id symbol target) rest
      | none =>
          if progress.dfa.size < limit then
            let target := progress.dfa.size
            explore nfa limit ((progress.register nfa next).connect id symbol target)
              (⟨target, next, nfa.symbols next⟩ :: rest)
          else
            .error (excess limit progress)
  termination_by progress stack => (limit - progress.dfa.size, work stack)
  decreasing_by
    · apply Prod.Lex.right
      simp [work]
    · simp only [Progress.connect, size_addEdge]
      apply Prod.Lex.right
      simp only [work, List.length_cons]
      omega
    · apply Prod.Lex.left
      simp only [Progress.connect, Progress.register, size_addEdge, size_addState]
      omega

end Subset

open Subset in
/-- The deterministic automaton for a nondeterministic one, with at most `limit`
states. -/
def ofNfa (nfa : Nfa) (limit : Nat) : Except LimitExceeded Dfa :=
  if 0 < limit then
    let set := nfa.closure [nfa.start]
    let progress := Progress.initial.register nfa set
    (explore nfa limit progress [⟨0, set, nfa.symbols set⟩]).map Progress.dfa
  else
    .error (excess limit .initial)

end ByteSignature.Dfa
