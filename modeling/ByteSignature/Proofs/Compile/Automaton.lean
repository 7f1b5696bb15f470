import ByteSignature.Compile.Basic
import ByteSignature.Proofs.Compile.Source
import ByteSignature.Proofs.Nfa.Finish

/-!
# The nondeterministic automaton of a pattern text

A text has an automaton exactly when it spells a pattern whose groups and states fit
under the limits.  The automaton recognizes the language of the text, followed by the end
marker where whole inputs are matched.
-/

namespace ByteSignature

open Nfa

/-- The pattern that is built for a pattern: where whole inputs are matched, the end
marker follows it. -/
def CompileOptions.augment (options : CompileOptions) (pattern : Pattern) : Pattern :=
  if options.anchored then .concat pattern (.symbol endMarker) else pattern

section Adapt

variable {α β ε δ σ : Type} (adapt : ε → δ)

/-- Changing the faults of two steps changes those of both. -/
theorem adaptExcept_bind (action : EStateM ε σ α) (further : α → EStateM ε σ β) :
    (action >>= further).adaptExcept adapt =
      action.adaptExcept adapt >>= fun value => (further value).adaptExcept adapt := by
  funext state
  simp only [bind, EStateM.bind, EStateM.adaptExcept]
  cases action state <;> rfl

end Adapt

/-- What follows a finished build. -/
def finishBuild : EStateM.Result BuildFault Builder Fragment → Except CompileError Nfa
  | .error fault _ => .error (.ofBuildFault fault)
  | .ok fragment builder =>
      match builder.finish? fragment with
      | none => .error (.unknownState fragment.start)
      | some nfa => .ok nfa

section Source

variable {options : CompileOptions} {source : String} {pattern : Pattern}

theorem nfaOfSource_eq (read : Pattern.read options.nestingLimit source = .ok pattern) :
    nfaOfSource options source =
      finishBuild ((options.augment pattern).build (.empty options.nfaLimit)) := by
  have program : (do
      let fragment ← buildSource options.nestingLimit source
      if options.anchored then
        let marker ← (Build.symbol endMarker).adaptExcept CompileError.ofBuildFault
        (Build.concat fragment marker).adaptExcept CompileError.ofBuildFault
      else
        return fragment) =
      (options.augment pattern).build.adaptExcept CompileError.ofBuildFault := by
    rw [buildSource, read, CompileOptions.augment]
    by_cases anchored : options.anchored = true
    · simp [anchored, Pattern.build, adaptExcept_bind]
    · simp [anchored]
  simp only [nfaOfSource, program]
  simp only [EStateM.run, EStateM.adaptExcept, finishBuild]
  cases (options.augment pattern).build (.empty options.nfaLimit) <;> rfl

/-- A text that is not built has no automaton, and for the same reason. -/
theorem nfaOfSource_eq_error {error : CompileError} {builder : Builder}
    (failed : buildSource options.nestingLimit source (.empty options.nfaLimit) =
      .error error builder) : nfaOfSource options source = .error error := by
  simp [nfaOfSource, EStateM.run, bind, EStateM.bind, failed]

/-- Only the text of a pattern has an automaton. -/
theorem exists_read_of_nfaOfSource {nfa : Nfa} (built : nfaOfSource options source = .ok nfa) :
    ∃ pattern, Pattern.read options.nestingLimit source = .ok pattern := by
  cases read : Pattern.read options.nestingLimit source with
  | ok pattern => exact ⟨pattern, rfl⟩
  | error failure =>
      obtain ⟨error, builder, failed⟩ :=
        exists_buildSource_eq_error read (.empty options.nfaLimit)
      rw [nfaOfSource_eq_error failed] at built
      cases built

/-- The automaton of a pattern exists exactly when its states fit under the limit, and
recognizes its language. -/
theorem nfaOfSource_cases (read : Pattern.read options.nestingLimit source = .ok pattern) :
    ((options.augment pattern).stateCount ≤ options.nfaLimit ∧
      ∃ nfa, nfaOfSource options source = .ok nfa ∧
        nfa.Recognizes (options.augment pattern).language ∧
        nfa.size ≤ (options.augment pattern).stateCount) ∨
    (options.nfaLimit < (options.augment pattern).stateCount ∧
      ∃ excess, nfaOfSource options source = .error (.limit excess)) := by
  rw [nfaOfSource_eq read]
  rcases (options.augment pattern).build_empty_cases options.nfaLimit with
    ⟨fits, fragment, builder, run, sizeEq, holds⟩ | ⟨full, excess, builder, run⟩
  · obtain ⟨nfa, finished, recognizes, sizeLe⟩ :=
      exists_finish?_of_holds holds (holds.wired fun id idLt => idLt)
    left
    constructor
    · exact fits
    · refine ⟨nfa, ?_, recognizes, sizeEq ▸ sizeLe⟩
      rw [run, finishBuild]
      simp only [finished]
  · right
    constructor
    · exact full
    · refine ⟨excess, ?_⟩
      rw [run]
      rfl

end Source

end ByteSignature
