import ByteSignature.Compile.Source
import ByteSignature.Proofs.Pattern.Enclosure
import ByteSignature.Proofs.Pattern.Position

/-!
# What a finding points at

The range of a finding comes from one token, from an opening and a closing parenthesis that
follow each other, from the whole text, or from its end.  So it can be cut out of the text, and
a finding about parentheses points at the parentheses that it is about.
-/

namespace ByteSignature

open Token

/-! ## Ranges of a text -/

/-- The range can be cut out of the text, and it is empty only at the end of the text. -/
structure Span.Within (span : Span) (source : String) : Prop where
  isValid_start : String.Pos.Raw.IsValid source ⟨span.start⟩
  isValid_stop : String.Pos.Raw.IsValid source ⟨span.stop⟩
  start_eq_of_empty : span.start = span.stop → span.start = source.utf8ByteSize

namespace Span

variable {source : String}

theorem within_whole (source : String) :
    Span.Within ⟨0, source.utf8ByteSize, Nat.zero_le _⟩ source where
  isValid_start := String.Pos.Raw.isValid_zero
  isValid_stop := String.Pos.Raw.isValid_rawEndPos
  start_eq_of_empty := id

theorem within_point (source : String) : (point source.utf8ByteSize).Within source where
  isValid_start := String.Pos.Raw.isValid_rawEndPos
  isValid_stop := String.Pos.Raw.isValid_rawEndPos
  start_eq_of_empty _ := rfl

theorem within_spanOf {token : Token} (tokenMem : token ∈ scanVisible source) :
    (Reader.spanOf token).Within source where
  isValid_start := isValid_start (mem_scan_of_mem_scanVisible tokenMem)
  isValid_stop := isValid_stop (mem_scan_of_mem_scanVisible tokenMem)
  start_eq_of_empty empty :=
    absurd empty (start_lt_stop (mem_scan_of_mem_scanVisible tokenMem)).ne

theorem cover_start {first second : Span} (ordered : first.start ≤ second.start) :
    (first.cover second).start = first.start :=
  Nat.min_eq_left ordered

theorem cover_stop {first second : Span} (ordered : first.stop ≤ second.stop) :
    (first.cover second).stop = second.stop :=
  Nat.max_eq_right ordered

/-- A range and one behind it are cut out together. -/
theorem Within.cover {first second : Span} (firstWithin : first.Within source)
    (secondWithin : second.Within source) (ordered : first.stop ≤ second.start) :
    (first.cover second).Within source := by
  have first_le := first.start_le_stop
  have second_le := second.start_le_stop
  have start_eq : (first.cover second).start = first.start := cover_start (by omega)
  have stop_eq : (first.cover second).stop = second.stop := cover_stop (by omega)
  constructor
  · rw [start_eq]
    exact firstWithin.isValid_start
  · rw [stop_eq]
    exact secondWithin.isValid_stop
  · rw [start_eq, stop_eq]
    intro empty
    exact firstWithin.start_eq_of_empty (by omega)

end Span

/-! ## Findings of the reader -/

namespace Reader

/-- A token that is read where a group has just been opened follows the parenthesis. -/
theorem exists_append_of_opening {limit : Nat} {source : String} {before after : List Token}
    {token : Token} {level : Level} {outer : List Level} {findings : List Diagnostic}
    (tokens_eq : scanVisible source = before ++ token :: after)
    (ran : run limit initial before = .ok ⟨.opening, level :: outer, findings⟩) :
    ∃ front, scanVisible source = front ++ level.paren :: token :: after ∧
      level.paren.kind = .openParen ∧ (spanOf level.paren).stop ≤ (spanOf token).start := by
  obtain ⟨front, rfl, opens⟩ := exists_append_of_run_opening ran
  rw [List.append_assoc, List.singleton_append] at tokens_eq
  have ordered := pairwise_scanVisible source
  rw [tokens_eq] at ordered
  have adjacent := (List.pairwise_append.mp ordered).2.1
  exact ⟨front, tokens_eq, opens, List.rel_of_pairwise_cons adjacent List.mem_cons_self⟩

namespace Finds

variable {limit : Nat} {source : String} {diagnostic : Diagnostic}

theorem within (finds : Finds limit source.utf8ByteSize (scanVisible source) diagnostic) :
    diagnostic.span.Within source := by
  cases finds with
  | @refused _ _ token _ _ tokens_eq ran _ refuses =>
      have tokenMem : token ∈ scanVisible source := by simp [tokens_eq]
      cases refuses with
      | operand =>
          rw [operandMissing_span]
          exact Span.within_spanOf tokenMem
      | emptyGroup =>
          obtain ⟨front, tokens_eq, _, ordered⟩ := exists_append_of_opening tokens_eq ran
          exact (Span.within_spanOf (by simp [tokens_eq])).cover (Span.within_spanOf tokenMem)
            ordered
      | unmatched => exact Span.within_spanOf tokenMem
      | repeated => exact Span.within_spanOf tokenMem
  | unfinished ran _ unfinished =>
      cases unfinished with
      | nothing => exact Span.within_whole source
      | operand => exact Span.within_point source
      | group =>
          have encloses := encloses_of_run_initial ran
          generalize tokens_eq : scanVisible source = tokens at encloses
          cases encloses with
          | group => exact Span.within_spanOf (by simp [tokens_eq])

variable {size : Nat} {tokens : List Token}

theorem kind_ne_trailingInput (finds : Finds limit size tokens diagnostic) :
    diagnostic.kind ≠ .trailingInput := by
  cases finds with
  | refused _ _ _ refuses =>
      cases refuses with
      | operand => exact operandMissing_kind_ne _ (by decide) (by decide)
      | emptyGroup => nofun
      | unmatched => nofun
      | repeated => nofun
  | unfinished _ _ unfinished => cases unfinished <;> nofun

/-- A group is found unclosed when all tokens are read and its parenthesis has no partner. -/
theorem of_unclosedGroup (finds : Finds limit size tokens diagnostic)
    (kind : diagnostic.kind = .unclosedGroup) :
    (∃ state, run limit initial tokens = .ok state) ∧
      ∃ before paren inner, tokens = before ++ paren :: inner ∧ paren.kind = .openParen ∧
        Balanced inner ∧ diagnostic.span = spanOf paren := by
  cases finds with
  | refused _ _ _ refuses =>
      cases refuses with
      | operand => exact absurd kind (operandMissing_kind_ne _ (by decide) (by decide))
      | emptyGroup => cases kind
      | unmatched => cases kind
      | repeated => cases kind
  | unfinished ran _ unfinished =>
      cases unfinished with
      | nothing => cases kind
      | operand => cases kind
      | group =>
          refine ⟨⟨_, ran⟩, ?_⟩
          cases encloses_of_run_initial ran with
          | group _ opens balanced => exact ⟨_, _, _, rfl, opens, balanced, rfl⟩

/-- A parenthesis is found unmatched when all parentheses in front of it are paired. -/
theorem of_unmatchedCloseParen (finds : Finds limit size tokens diagnostic)
    (kind : diagnostic.kind = .unmatchedCloseParen) :
    ∃ before paren after, tokens = before ++ paren :: after ∧ paren.kind = .closeParen ∧
      Balanced before ∧ diagnostic.span = spanOf paren := by
  cases finds with
  | refused tokens_eq ran _ refuses =>
      cases refuses with
      | operand => exact absurd kind (operandMissing_kind_ne _ (by decide) (by decide))
      | emptyGroup => cases kind
      | unmatched closes =>
          cases encloses_of_run_initial ran with
          | outermost balanced => exact ⟨_, _, _, tokens_eq, closes, balanced, rfl⟩
      | repeated => cases kind
  | unfinished _ _ unfinished => cases unfinished <;> cases kind

theorem of_emptyGroup (finds : Finds limit size (scanVisible source) diagnostic)
    (kind : diagnostic.kind = .emptyGroup) :
    ∃ before opening closing after, scanVisible source = before ++ opening :: closing :: after ∧
      opening.kind = .openParen ∧ closing.kind = .closeParen ∧
      diagnostic.span.start = opening.start ∧ diagnostic.span.stop = closing.stop := by
  cases finds with
  | refused tokens_eq ran _ refuses =>
      cases refuses with
      | operand => exact absurd kind (operandMissing_kind_ne _ (by decide) (by decide))
      | emptyGroup closes =>
          obtain ⟨front, tokens_eq, opens, ordered⟩ := exists_append_of_opening tokens_eq ran
          refine ⟨_, _, _, _, tokens_eq, opens, closes, ?_, ?_⟩
          · exact Span.cover_start ((Span.start_le_stop _).trans ordered)
          · exact Span.cover_stop (ordered.trans (Span.start_le_stop _))
      | unmatched => cases kind
      | repeated => cases kind
  | unfinished _ _ unfinished => cases unfinished <;> cases kind

end Finds

end Reader

/-! ## Findings of a build -/

/-- Only reading comes to findings. -/
theorem exists_read_of_buildSource {nestingLimit : Nat} {source : String}
    {builder next : Nfa.Builder} {diagnostics : List Diagnostic}
    (failed : buildSource nestingLimit source builder = .error (.malformed diagnostics) next) :
    ∃ operands, Pattern.read nestingLimit source = .error ⟨operands, .malformed diagnostics⟩ := by
  have not_built {α : Type} (build : Nfa.Build α) :
      build.adaptExcept CompileError.ofBuildFault builder ≠
        .error (.malformed diagnostics) next := by
    intro built
    simp only [EStateM.adaptExcept] at built
    split at built
    · rename_i fault _ _
      cases fault <;> cases built
    · cases built
  rw [buildSource] at failed
  cases read : Pattern.read nestingLimit source with
  | ok pattern =>
      rw [read] at failed
      exact absurd failed (not_built _)
  | error failure =>
      rw [read] at failed
      simp only [bind, EStateM.bind] at failed
      split at failed
      · rcases failure with ⟨operands, fault⟩
        cases fault <;> cases failed
        exact ⟨operands, rfl⟩
      · rename_i built
        cases failed
        exact absurd built (not_built _)

/-- A text that is no pattern has exactly one finding, whatever the limits and the automaton built
so far, and it points into the text: its range begins and ends where characters meet, and is empty
only at the end of the text.  No finding is about input behind a pattern.  A group is found
unclosed when all tokens are read, and the range is that of an opening parenthesis without a
partner.  A closing parenthesis without a partner is the range of its own finding.  An empty group
ranges from its opening parenthesis to the next visible token, which closes it. -/
theorem malformed_pointsInto {nestingLimit : Nat} {source : String} {builder next : Nfa.Builder}
    {diagnostics : List Diagnostic}
    (failed : buildSource nestingLimit source builder = .error (.malformed diagnostics) next) :
    ∃ diagnostic, diagnostics = [diagnostic] ∧
      (∀ nestingLimit2 builder2 diagnostics2 next2,
        buildSource nestingLimit2 source builder2 = .error (.malformed diagnostics2) next2 →
          diagnostics2 = [diagnostic]) ∧
      (diagnostic.span.start ≤ diagnostic.span.stop ∧
        diagnostic.span.stop ≤ source.utf8ByteSize ∧
        diagnostic.span.Within source) ∧
      diagnostic.kind ≠ .trailingInput ∧
      (diagnostic.kind = .unclosedGroup →
        (∃ state, Reader.run nestingLimit Reader.initial (scanVisible source) = .ok state) ∧
          ∃ before paren inner, scanVisible source = before ++ paren :: inner ∧
            paren.IsCharacter '(' ∧ Balanced inner ∧ diagnostic.span = Reader.spanOf paren) ∧
      (diagnostic.kind = .unmatchedCloseParen →
        ∃ before paren after, scanVisible source = before ++ paren :: after ∧
          paren.IsCharacter ')' ∧ Balanced before ∧ diagnostic.span = Reader.spanOf paren) ∧
      (diagnostic.kind = .emptyGroup →
        ∃ before opening closing after,
          scanVisible source = before ++ opening :: closing :: after ∧
            opening.IsCharacter '(' ∧ closing.IsCharacter ')' ∧
            diagnostic.span.start = opening.start ∧ diagnostic.span.stop = closing.stop) := by
  obtain ⟨operands, read⟩ := exists_read_of_buildSource failed
  obtain ⟨diagnostic, diagnostics_eq, finds⟩ := Reader.finds_of_read read
  have within := finds.within
  refine ⟨diagnostic, diagnostics_eq, ?unique,
    ⟨diagnostic.span.start_le_stop, within.isValid_stop.le_utf8ByteSize, within⟩,
    finds.kind_ne_trailingInput, ?unclosed, ?unmatched, ?empty⟩
  case unique =>
    intro nestingLimit2 builder2 diagnostics2 next2 failed2
    obtain ⟨operands2, read2⟩ := exists_read_of_buildSource failed2
    obtain ⟨diagnostic2, rfl, finds2⟩ := Reader.finds_of_read read2
    rw [finds.unique finds2]
  case unclosed =>
    intro kind
    obtain ⟨consumed, before, paren, inner, tokens_eq, opens, balanced, span_eq⟩ :=
      finds.of_unclosedGroup kind
    have parenMem : paren ∈ scanVisible source := by simp [tokens_eq]
    have isCharacter := isCharacter_of_openParen parenMem opens
    exact ⟨consumed, before, paren, inner, tokens_eq, isCharacter, balanced, span_eq⟩
  case unmatched =>
    intro kind
    obtain ⟨before, paren, after, tokens_eq, closes, balanced, span_eq⟩ :=
      finds.of_unmatchedCloseParen kind
    have parenMem : paren ∈ scanVisible source := by simp [tokens_eq]
    have isCharacter := isCharacter_of_closeParen parenMem closes
    exact ⟨before, paren, after, tokens_eq, isCharacter, balanced, span_eq⟩
  case empty =>
    intro kind
    obtain ⟨before, opening, closing, after, tokens_eq, opens, closes, start_eq, stop_eq⟩ :=
      finds.of_emptyGroup kind
    have openingMem : opening ∈ scanVisible source := by simp [tokens_eq]
    have closingMem : closing ∈ scanVisible source := by simp [tokens_eq]
    have openingIs := isCharacter_of_openParen openingMem opens
    have closingIs := isCharacter_of_closeParen closingMem closes
    exact ⟨before, opening, closing, after, tokens_eq, openingIs, closingIs, start_eq, stop_eq⟩

/-- The empty group of `a ( )` takes the bytes from the third to the last. -/
theorem malformed_pointsInto_emptyGroup :
    ∃ next, buildSource 1 "a ( )" (.empty 2) =
        .error (.malformed [.ofKind .emptyGroup ⟨2, 5, by decide⟩]) next ∧
      Span.Within ⟨2, 5, by decide⟩ "a ( )" := by
  have failed : ∃ next, buildSource 1 "a ( )" (.empty 2) =
      .error (.malformed [.ofKind .emptyGroup ⟨2, 5, by decide⟩]) next := ⟨_, rfl⟩
  obtain ⟨next, failed⟩ := failed
  obtain ⟨diagnostic, diagnostics_eq, -, ⟨-, -, within⟩, -⟩ := malformed_pointsInto failed
  cases diagnostics_eq
  exact ⟨next, failed, within⟩

end ByteSignature
