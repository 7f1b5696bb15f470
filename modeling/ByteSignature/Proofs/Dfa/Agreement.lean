import ByteSignature.Proofs.Dfa.Subset
import ByteSignature.Proofs.Nfa.Finish

/-!
# The two kinds of automata agree

Running a nondeterministic automaton keeps the states that are live, so it accepts exactly
what its paths from the start to the accepting state spell.  Subset construction keeps this:
whatever graph was built, and whatever limit it succeeds within, both automata accept the
same inputs, and walks get stuck exactly where no state is live any more.
-/

namespace ByteSignature

namespace Nfa

variable {nfa : Nfa}

/-- A run keeps to the live states. -/
theorem Represents.run {set : List Nat} {first : List UInt8}
    (represents : nfa.Represents set first) (second : List UInt8) :
    nfa.Represents (nfa.run set second) (first ++ second) := by
  induction second generalizing set first with
  | nil =>
      rw [run_nil, List.append_nil]
      exact represents
  | cons byte rest ih =>
      cases set with
      | nil =>
          -- Once no state is live, none is live later.
          intro id
          rw [Nfa.run]
          constructor
          · intro idMem
            cases idMem
          · intro path
            obtain ⟨middle, firstPath, _⟩ := path.exists_append
            cases (represents middle).mpr firstPath
      | cons id set =>
          rw [List.append_cons]
          exact ih (represents.step byte)

/-- The inputs that are accepted are those that lead from the start to the accepting state. -/
theorem accepts_iff_path (nfa : Nfa) (input : List UInt8) :
    nfa.accepts input = true ↔ Path nfa.edges nfa.start input nfa.terminate := by
  rw [accepts, List.contains_iff_mem]
  exact nfa.represents_start.run input nfa.terminate

end Nfa

namespace Dfa

theorem Determines.accepts_eq {nfa : Nfa} {dfa : Dfa} (determines : Determines nfa dfa)
    (input : List UInt8) : dfa.accepts input = nfa.accepts input := by
  rw [Bool.eq_iff_iff, nfa.accepts_iff_path, accepts, walk_eq_walkFrom determines.inRange]
  cases walk : dfa.walkFrom dfa.start input with
  | some id => exact determines.isAccepting_iff walk
  | none =>
      have dead : ¬ ∃ id, Nfa.Path nfa.edges nfa.start input id := by
        rw [← determines.isSome_iff, walk]
        exact Bool.false_ne_true
      constructor
      · intro accepted
        cases accepted
      · intro path
        exact absurd ⟨_, path⟩ dead

/-- A graph whose edges and ends belong to its states can be finished, and every
deterministic automaton for it accepts the same inputs and walks exactly along its paths. -/
theorem ofNfa_keeps_language {builder : Nfa.Builder} {fragment : Nfa.Fragment}
    (wired : builder.Wired) (startLt : fragment.start < builder.size)
    (terminateLt : fragment.terminate < builder.size) :
    ∃ nfa, builder.finish? fragment = some nfa ∧ ∀ limit dfa, ofNfa nfa limit = .ok dfa →
      dfa.InRange ∧ (∀ input, dfa.accepts input = nfa.accepts input) ∧
        ∀ input, (dfa.walk input).isSome ↔ ∃ id, Nfa.Path nfa.edges nfa.start input id := by
  obtain ⟨nfa, finished, _⟩ := Nfa.Builder.exists_finish?_eq_some wired startLt terminateLt
  refine ⟨nfa, finished, ?_⟩
  intro limit dfa done
  obtain ⟨determines, _⟩ := determines_of_ofNfa done
  refine ⟨determines.inRange, determines.accepts_eq, ?_⟩
  intro input
  rw [walk_eq_walkFrom determines.inRange]
  exact determines.isSome_iff input

/-- A ring of silent edges that can be left and gone through again for one byte. -/
def silentRing : Nfa.Builder where
  states := #[
    ⟨[⟨.epsilon, 1⟩, ⟨.symbol 97, 2⟩], by decide⟩,
    ⟨[⟨.epsilon, 0⟩, ⟨.symbol 97, 1⟩], by decide⟩,
    ⟨[⟨.symbol 98, 2⟩], by decide⟩]
  limit := 3

/-- The ring is gone through before and after the first byte. -/
theorem ofNfa_keeps_language_silentRing : silentRing.Wired ∧ 0 < silentRing.size ∧
    2 < silentRing.size ∧ ∃ nfa dfa, silentRing.finish? ⟨0, 2⟩ = some nfa ∧
      ofNfa nfa (2 ^ nfa.size) = .ok dfa ∧ dfa.accepts [97, 97, 98] = true := by
  have wired : silentRing.Wired := by
    intro id
    by_cases idLt : id < 3
    · exact (by decide : ∀ id < 3, ∀ edge ∈ silentRing.wiring id, edge.target < 3) id idLt
    · rw [Nfa.Builder.wiring_of_le (Nat.not_lt.mp idLt)]
      exact List.forall_mem_nil _
  have startLt : (⟨0, 2⟩ : Nfa.Fragment).start < silentRing.size := by decide
  obtain ⟨nfa, finished, agree⟩ := ofNfa_keeps_language wired startLt (by decide)
  obtain ⟨dfa, done⟩ := exists_ofNfa_eq_ok (Nat.le_refl (2 ^ nfa.size))
  refine ⟨wired, by decide, by decide, nfa, dfa, finished, done, ?_⟩
  rw [(agree _ dfa done).2.1, nfa.accepts_iff_path,
    Nfa.Builder.path_iff_of_finish? wired (by decide) (by decide) finished]
  have around : ⟨.epsilon, 1⟩ ∈ silentRing.wiring 0 := by decide
  have stay : ⟨.symbol 97, 1⟩ ∈ silentRing.wiring 1 := by decide
  have back : ⟨.epsilon, 0⟩ ∈ silentRing.wiring 1 := by decide
  have leave : ⟨.symbol 97, 2⟩ ∈ silentRing.wiring 0 := by decide
  have last : ⟨.symbol 98, 2⟩ ∈ silentRing.wiring 2 := by decide
  exact .silent around ((Nfa.Path.single stay).append
    (.silent back ((Nfa.Path.single leave).append (.single last))))

end Dfa

end ByteSignature
