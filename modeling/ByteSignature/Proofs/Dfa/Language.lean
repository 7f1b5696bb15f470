import ByteSignature.Proofs.Dfa.Behaviour
import ByteSignature.Proofs.Dfa.Subset
import ByteSignature.Proofs.Nfa.Finish
import Mathlib.Data.Fintype.Card

/-!
# Languages of deterministic automata

A trimmed automaton for a language walks exactly along the prefixes of its words and
accepts exactly its words, and walks reach all its states.  Subset construction gives
one, and minimization keeps one while making it the smallest automaton that accepts the
language.  Two smallest ones are equal up to the numbers of their states.
-/

namespace ByteSignature.Dfa

/-- The automaton walks along the prefixes of the words of a language, accepts its words,
and has no state that is not reached. -/
structure Recognizes (dfa : Dfa) (language : Language UInt8) : Prop where
  inRange : dfa.InRange
  reached : ∀ id < dfa.size, ∃ input, dfa.walkFrom dfa.start input = some id
  isSome_iff : ∀ input,
    (dfa.walkFrom dfa.start input).isSome ↔ ∃ rest, input ++ rest ∈ language
  isAccepting_iff : ∀ {input id}, dfa.walkFrom dfa.start input = some id →
    (dfa.isAccepting id = true ↔ input ∈ language)

theorem recognizes_of_determines {nfa : Nfa} {dfa : Dfa} {language : Language UInt8}
    (recognizes : nfa.Recognizes language) (determines : Determines nfa dfa) :
    dfa.Recognizes language where
  inRange := determines.inRange
  reached := determines.reached
  isSome_iff := by
    intro input
    rw [determines.isSome_iff]
    constructor
    · rintro ⟨id, path⟩
      obtain ⟨rest, restPath⟩ := recognizes.live path
      exact ⟨rest, (recognizes.path_iff _).mp (path.append restPath)⟩
    · rintro ⟨rest, restMem⟩
      rcases ((recognizes.path_iff _).mpr restMem).exists_append with ⟨middle, path, _⟩
      exact ⟨middle, path⟩
  isAccepting_iff := by
    intro input id walk
    rw [determines.isAccepting_iff walk]
    exact recognizes.path_iff input

namespace Recognizes

variable {dfa dfa2 minimal : Dfa} {language language2 : Language UInt8}

/-- Prefixes of words lead somewhere. -/
theorem exists_walkFrom (recognizes : dfa.Recognizes language) {input rest : List UInt8}
    (wordMem : input ++ rest ∈ language) :
    ∃ id, dfa.walkFrom dfa.start input = some id :=
  Option.isSome_iff_exists.mp ((recognizes.isSome_iff input).mpr ⟨rest, wordMem⟩)

theorem isSome_answer?_iff (recognizes : dfa.Recognizes language) (input : List UInt8) :
    (dfa.answer? dfa.start input).isSome ↔ ∃ rest, input ++ rest ∈ language := by
  rw [answer?, Option.isSome_map]
  exact recognizes.isSome_iff input

theorem answer?_eq_some_true_iff (recognizes : dfa.Recognizes language) (input : List UInt8) :
    dfa.answer? dfa.start input = some true ↔ input ∈ language := by
  rw [answer?, Option.map_eq_some_iff]
  constructor
  · rintro ⟨id, walk, accepting⟩
    exact (recognizes.isAccepting_iff walk).mp accepting
  · intro inputMem
    obtain ⟨id, walk⟩ := recognizes.exists_walkFrom (List.append_nil input ▸ inputMem)
    exact ⟨id, walk, (recognizes.isAccepting_iff walk).mpr inputMem⟩

theorem accepts_iff (recognizes : dfa.Recognizes language) (input : List UInt8) :
    dfa.accepts input = true ↔ input ∈ language := by
  rw [← recognizes.answer?_eq_some_true_iff, accepts, walk_eq_walkFrom recognizes.inRange, answer?]
  cases dfa.walkFrom dfa.start input <;> simp

/-- Answers are equal when they are there, and positive, for the same inputs. -/
theorem eq_of_eq_some_true_iff {answer answer2 : Option Bool}
    (word_iff : answer = some true ↔ answer2 = some true)
    (prefix_iff : answer.isSome ↔ answer2.isSome) : answer = answer2 := by
  cases answer with
  | none =>
      cases answer2 with
      | none => rfl
      | some _ => simp at prefix_iff
  | some accepting =>
      cases answer2 with
      | none => simp at prefix_iff
      | some accepting2 => cases accepting <;> cases accepting2 <;> simp_all

/-- What the answers are determines the language and the other way round. -/
theorem alike_iff (recognizes : dfa.Recognizes language)
    (recognizes2 : dfa2.Recognizes language2) :
    Alike dfa dfa2 dfa.start dfa2.start ↔ language = language2 := by
  constructor
  · intro alike
    ext input
    rw [← recognizes.answer?_eq_some_true_iff, ← recognizes2.answer?_eq_some_true_iff,
      alike input]
  · rintro rfl input
    have word_iff := (recognizes.answer?_eq_some_true_iff input).trans
      (recognizes2.answer?_eq_some_true_iff input).symm
    have prefix_iff := (recognizes.isSome_answer?_iff input).trans
      (recognizes2.isSome_answer?_iff input).symm
    exact eq_of_eq_some_true_iff word_iff prefix_iff

/-- Minimization keeps the language. -/
theorem of_minimizes (recognizes : dfa.Recognizes language) (minimizes : Minimizes dfa minimal) :
    minimal.Recognizes language where
  inRange := minimizes.inRange
  reached := minimizes.reached
  isSome_iff := by
    intro input
    rw [← recognizes.isSome_answer?_iff, minimizes.alike input, answer?, Option.isSome_map]
  isAccepting_iff := by
    intro input id walk
    rw [← recognizes.answer?_eq_some_true_iff, minimizes.alike input, answer?, walk,
      Option.map_some, Option.some.injEq]

/-! ## Smallest automata -/

/-- States that agree on which inputs lead to acceptance are alike, because walks only
lead where a word can still be completed. -/
theorem alike_of_accepting_iff (recognizes : dfa.Recognizes language) {id id2 : Nat}
    {access access2 : List UInt8} (walk : dfa.walkFrom dfa.start access = some id)
    (walk2 : dfa.walkFrom dfa.start access2 = some id2)
    (agree : ∀ rest, access ++ rest ∈ language ↔ access2 ++ rest ∈ language) :
    Alike dfa dfa id id2 := by
  intro input
  have word_iff := agree input
  rw [← recognizes.answer?_eq_some_true_iff, ← recognizes.answer?_eq_some_true_iff,
    answer?_append walk, answer?_append walk2] at word_iff
  have prefix_iff : (dfa.answer? id input).isSome ↔ (dfa.answer? id2 input).isSome := by
    rw [← answer?_append walk, ← answer?_append walk2, recognizes.isSome_answer?_iff,
      recognizes.isSome_answer?_iff]
    apply exists_congr
    intro rest
    rw [List.append_assoc, List.append_assoc]
    exact agree (input ++ rest)
  exact eq_of_eq_some_true_iff word_iff prefix_iff

end Recognizes

/-- An accepted input takes every automaton from state to state. -/
theorem exists_walkFrom_of_accepts {dfa : Dfa} {first second : List UInt8}
    (accepts : dfa.accepts (first ++ second) = true) :
    ∃ target < dfa.size, dfa.walkFrom dfa.start first = some target := by
  rw [Dfa.accepts, walk] at accepts
  by_cases empty : dfa.size = 0
  · rw [if_pos empty] at accepts
    cases accepts
  · rw [if_neg empty, walkFrom_append] at accepts
    cases walk : dfa.walkFrom dfa.start first with
    | none =>
        rw [walk] at accepts
        cases accepts
    | some target =>
        refine ⟨target, ?_, rfl⟩
        by_contra notLt
        have le := Nat.not_lt.mp notLt
        rw [walk, Option.bind_some] at accepts
        -- A number that belongs to no state is not accepting and leads nowhere.
        cases second with
        | nil =>
            rw [walkFrom] at accepts
            simp [isAccepting, state_of_le le, State.isolated] at accepts
        | cons symbol rest =>
            rw [walkFrom_cons, target?_of_le le] at accepts
            cases accepts

theorem accepts_append_eq {dfa : Dfa} {first first2 : List UInt8}
    (same : dfa.walkFrom dfa.start first = dfa.walkFrom dfa.start first2)
    (second : List UInt8) : dfa.accepts (first ++ second) = dfa.accepts (first2 ++ second) := by
  rw [accepts, accepts, walk, walk, walkFrom_append, walkFrom_append, same]

/-- An automaton without states that are alike is the smallest that accepts its
language. -/
theorem Recognizes.size_le {dfa minimal : Dfa} {language : Language UInt8}
    (recognizes : minimal.Recognizes language)
    (separated : ∀ id < minimal.size, ∀ id2 < minimal.size,
      Alike minimal minimal id id2 → id = id2)
    (agree : ∀ input, dfa.accepts input = true ↔ input ∈ language) :
    minimal.size ≤ dfa.size := by
  have meets (id : Fin minimal.size) : ∃ target : Fin dfa.size, ∃ access,
      minimal.walkFrom minimal.start access = some id.val ∧
        dfa.walkFrom dfa.start access = some target.val := by
    obtain ⟨access, walk⟩ := recognizes.reached id.val id.isLt
    rcases (recognizes.isSome_iff access).mp (by rw [walk]; rfl) with ⟨rest, wordMem⟩
    rcases exists_walkFrom_of_accepts ((agree _).mpr wordMem) with ⟨target, targetLt, walk2⟩
    exact ⟨⟨target, targetLt⟩, access, walk, walk2⟩
  choose meeting access walk walk2 using meets
  -- Inputs that meet in one state of the other automaton cannot be told apart any more.
  have injective : Function.Injective meeting := by
    intro id id2 eq
    apply Fin.ext
    apply separated id.val id.isLt id2.val id2.isLt
    apply recognizes.alike_of_accepting_iff (walk id) (walk id2)
    intro rest
    rw [← agree, ← agree, accepts_append_eq]
    rw [walk2, walk2, eq]
  simpa using Fintype.card_le_of_injective meeting injective

/-- Minimized automata have equal descriptions exactly when their languages are equal. -/
theorem shape_minimize_eq_iff {dfa dfa2 : Dfa} {language language2 : Language UInt8}
    (recognizes : dfa.Recognizes language) (recognizes2 : dfa2.Recognizes language2) :
    dfa.minimize.shape = dfa2.minimize.shape ↔ language = language2 := by
  have minimizes := minimizes_minimize recognizes.inRange
  have minimizes2 := minimizes_minimize recognizes2.inRange
  rw [minimizes.shape_eq_iff minimizes2, recognizes.alike_iff recognizes2]

end ByteSignature.Dfa
