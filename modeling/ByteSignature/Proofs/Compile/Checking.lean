import ByteSignature.Compile.Report
import ByteSignature.Proofs.Compile.Meaning
import ByteSignature.Proofs.Text.Split

/-!
# Checked files

A file is checked line by line, and every line that fails has one report.  What is compiled of a
line is the line without the blanks at its end, and these are more than the blanks of patterns.
As long as a line ends with blanks of patterns only, it fails exactly when what is compiled of it
fails.  A line with another blank at its end is no pattern at all, and yet it goes unreported
when the rest of it is one.
-/

namespace ByteSignature

open Pattern

/-! ## What decides whether a text fails -/

namespace Pattern

/-- The blanks of a text that the alphabet has are the blanks of patterns. -/
theorem isBlank_of_inAlphabet {character : Char} (blank : Text.isBlank character = true)
    (inside : inAlphabet character = true) : isBlank character = true := by
  have low_or_high : character.toNat < 0x21 ∨ 0x7e < character.toNat := by
    by_contra visible
    rw [Text.isBlank_of_visible (by omega) (by omega)] at blank
    cases blank
  rw [inAlphabet, Bool.or_eq_true, Bool.or_eq_true] at inside
  rcases inside with (alphanumeric | isSign) | isBlank
  · have bounds := bounds_of_isAlphanum alphanumeric
    omega
  · exfalso
    simp only [List.contains_iff_mem, List.mem_cons, List.not_mem_nil, or_false] at isSign
    rcases isSign with rfl | rfl | rfl | rfl | rfl | rfl <;> revert low_or_high <;> decide
  · exact isBlank

end Pattern

/-- The text has no table. -/
def Fails (options : CompileOptions) (text : List Char) : Prop :=
  ∃ error, compileTable options (String.ofList text) = .error error

section Source

variable {options : CompileOptions} {source source2 : String}

theorem compileTable_eq_of_read {pattern : Pattern}
    (read : Pattern.read options.nestingLimit source = .ok pattern)
    (read2 : Pattern.read options.nestingLimit source2 = .ok pattern) :
    compileTable options source = compileTable options source2 := by
  rw [compileTable, compile, nfaOfSource_eq read, ← nfaOfSource_eq read2]
  rfl

/-- A text that is not read has no table. -/
theorem exists_compileTable_eq_error {failure : ReadFailure}
    (read : Pattern.read options.nestingLimit source = .error failure) :
    ∃ error, compileTable options source = .error error := by
  obtain ⟨error, next, failed⟩ := exists_buildSource_eq_error read (.empty options.nfaLimit)
  refine ⟨error, ?_⟩
  rw [compileTable, compile, nfaOfSource_eq_error failed]

theorem exists_compileTable_eq_error_of_visible_eq (visible_eq : visible source = visible source2)
    (failed : ∃ error, compileTable options source = .error error) :
    ∃ error, compileTable options source2 = .error error := by
  cases read : Pattern.read options.nestingLimit source2 with
  | error failure => exact exists_compileTable_eq_error read
  | ok pattern =>
      have read2 : Pattern.read options.nestingLimit source = .ok pattern := by
        rw [read_eq_ok_iff] at read ⊢
        rwa [visible_eq]
      rwa [compileTable_eq_of_read read2 read] at failed

/-- A text with a character outside the alphabet has no table. -/
theorem exists_compileTable_eq_error_of_mem {character : Char}
    (characterMem : character ∈ source.toList) (outside : inAlphabet character = false) :
    ∃ error, compileTable options source = .error error := by
  cases read : Pattern.read options.nestingLimit source with
  | error failure => exact exists_compileTable_eq_error read
  | ok pattern =>
      have inside := inAlphabet_of_spells (read_eq_ok_iff.mp read).1 character characterMem
      rw [outside] at inside
      cases inside

end Source

/-! ## Blanks at the end of a line -/

/-- Of the blanks at the end of the line, not all are blanks of patterns. -/
def EndsForeign (line : List Char) : Prop :=
  ∃ body blanks, Text.EndsBlank line body blanks ∧
    ∃ character ∈ blanks, isBlank character = false

section Line

variable {options : CompileOptions} {line : List Char}

theorem EndsForeign.fails (foreign : EndsForeign line) : Fails options line := by
  obtain ⟨body, blanks, ends, character, characterMem, notBlank⟩ := foreign
  have lineMem : character ∈ (String.ofList line).toList := by
    rw [String.toList_ofList, ends.line_eq]
    exact List.mem_append_right _ characterMem
  apply exists_compileTable_eq_error_of_mem lineMem
  rw [Bool.eq_false_iff]
  intro inside
  rw [isBlank_of_inAlphabet (ends.blank character characterMem) inside] at notBlank
  cases notBlank

/-- Blanks of patterns at the end of a line do not matter. -/
theorem fails_trimEnd_iff (notForeign : ¬ EndsForeign line) :
    Fails options (Text.trimEnd line) ↔ Fails options line := by
  obtain ⟨blanks, ends⟩ := Text.exists_endsBlank_trimEnd line
  have allBlank : ∀ character ∈ blanks, isBlank character = true := by
    intro character characterMem
    by_contra notBlank
    exact notForeign ⟨_, blanks, ends, character, characterMem, by simpa using notBlank⟩
  have visible_eq : visible (String.ofList (Text.trimEnd line)) =
      visible (String.ofList line) := by
    have nothing : blanks.filter (fun character => !isBlank character) = [] := by
      rw [List.filter_eq_nil_iff]
      intro character characterMem
      simp [allBlank character characterMem]
    conv_rhs => rw [ends.line_eq]
    simp only [visible, String.toList_ofList, List.filter_append, nothing, List.append_nil]
  exact ⟨exists_compileTable_eq_error_of_visible_eq visible_eq,
    exists_compileTable_eq_error_of_visible_eq visible_eq.symm⟩

end Line

/-! ## Reports -/

/-- A line that failed, with the number of lines before it and its error. -/
structure FailedLine where
  index : Nat
  line : List Char
  error : CompileError

namespace FailedLine

/-- The report on a line counts lines from one and shows what was compiled of the line. -/
def report (renderer : Snippet.Renderer) (color : Bool) (path : String) (failed : FailedLine) :
    String :=
  failed.error.reportInFile renderer color path (failed.index + 1) (Text.trimEnd failed.line)

/-- The line has its place among the lines, is not blank, and fails with the error when the
blanks at its end are taken off. -/
structure FailsIn (failed : FailedLine) (options : CompileOptions) (found : List (List Char)) :
    Prop where
  placed : found[failed.index]? = some failed.line
  notBlank : ∃ character ∈ failed.line, Text.isBlank character = false
  compile_eq : compileTable options (String.ofList (Text.trimEnd failed.line)) =
    .error failed.error

/-- The failure of a line, unless it is blank or compiles. -/
def ofLine? (options : CompileOptions) (index : Nat) (line : List Char) : Option FailedLine :=
  if Text.trimEnd line = [] then
    none
  else
    match compileTable options (String.ofList (Text.trimEnd line)) with
    | .ok _ => none
    | .error error => some ⟨index, line, error⟩

theorem ofLine?_eq_some_iff {options : CompileOptions} {index : Nat} {line : List Char}
    {failed : FailedLine} :
    ofLine? options index line = some failed ↔
      (failed.index = index ∧ failed.line = line) ∧ Text.trimEnd line ≠ [] ∧
        compileTable options (String.ofList (Text.trimEnd line)) = .error failed.error := by
  obtain ⟨index2, line2, error2⟩ := failed
  rw [ofLine?]
  split
  · rename_i isBlank
    simp [isBlank]
  · rename_i notBlank
    cases compileTable options (String.ofList (Text.trimEnd line)) with
    | ok table => simp
    | error error => simp [notBlank, eq_comm, and_assoc]

theorem checkLine_eq (renderer : Snippet.Renderer) (options : CompileOptions) (color : Bool)
    (path : String) (index : Nat) (line : List Char) :
    checkLine renderer options color path (index + 1) line =
      (ofLine? options index line).map (report renderer color path) := by
  simp only [checkLine, ofLine?, List.isEmpty_iff]
  split
  · rfl
  · cases compileTable options (String.ofList (Text.trimEnd line)) <;> rfl

/-- The failures of some lines, in order. -/
def ofLines (options : CompileOptions) (found : List (List Char)) : List FailedLine :=
  found.zipIdx.filterMap fun numbered => ofLine? options numbered.2 numbered.1

theorem mem_ofLines_iff {options : CompileOptions} {found : List (List Char)}
    {failed : FailedLine} : failed ∈ ofLines options found ↔ failed.FailsIn options found := by
  rw [ofLines, List.mem_filterMap]
  constructor
  · rintro ⟨⟨line, index⟩, placed, isFailed⟩
    obtain ⟨⟨rfl, rfl⟩, notNil, compile_eq⟩ := ofLine?_eq_some_iff.mp isFailed
    refine ⟨List.mk_mem_zipIdx_iff_getElem?.mp placed, ?_, compile_eq⟩
    by_contra allBlank
    apply notNil
    simpa [Text.trimEnd_eq_nil_iff] using allBlank
  · rintro ⟨placed, ⟨character, characterMem, notBlank⟩, compile_eq⟩
    refine ⟨(failed.line, failed.index), List.mk_mem_zipIdx_iff_getElem?.mpr placed,
      ofLine?_eq_some_iff.mpr ⟨⟨rfl, rfl⟩, ?_, compile_eq⟩⟩
    intro isNil
    rw [Text.trimEnd_eq_nil_iff.mp isNil character characterMem] at notBlank
    cases notBlank

theorem pairwise_ofLines (options : CompileOptions) (found : List (List Char)) :
    (ofLines options found).Pairwise fun first second => first.index < second.index := by
  have numbers : (found.zipIdx.map Prod.snd).Pairwise (· < ·) := by
    rw [List.zipIdx_map_snd]
    exact List.pairwise_lt_range'
  rw [List.pairwise_map] at numbers
  rw [ofLines, List.pairwise_filterMap]
  refine numbers.imp ?_
  intro first second lt failed isFailed failed2 isFailed2
  rw [(ofLine?_eq_some_iff.mp isFailed).1.1, (ofLine?_eq_some_iff.mp isFailed2).1.1]
  exact lt

theorem checkText_eq (renderer : Snippet.Renderer) (options : CompileOptions) (color : Bool)
    (path : String) (text : List Char) :
    checkText renderer options color path text =
      (ofLines options (Text.lines text)).map (report renderer color path) := by
  rw [checkText, List.zipIdx_succ, List.filterMap_map, ofLines, List.map_filterMap]
  congr 1
  funext numbered
  exact checkLine_eq renderer options color path numbered.2 numbered.1

end FailedLine

/-- Whatever draws them, a file has one report for each of its lines that fails, in the order of
the lines.  These are the lines that are not blank and do not compile, apart from those with
blanks of another kind than patterns have at their end: none of them compiles, but they are
reported only if they do not compile without those blanks either. -/
theorem checkText_reports (renderer : Snippet.Renderer) (options : CompileOptions) (color : Bool)
    (path : String) (text : List Char) :
    ∃ (found : List (List Char)) (failures : List FailedLine),
      Text.Splits text found ∧
        checkText renderer options color path text =
          failures.map (FailedLine.report renderer color path) ∧
        failures.Pairwise (fun first second => first.index < second.index) ∧
        (∀ failed, failed ∈ failures ↔ failed.FailsIn options found) ∧
        ∀ index line, found[index]? = some line →
          (¬ EndsForeign line →
            ((∃ failed ∈ failures, failed.index = index) ↔
              (∃ character ∈ line, Text.isBlank character = false) ∧ Fails options line)) ∧
          (EndsForeign line → Fails options line ∧
            ((∃ failed ∈ failures, failed.index = index) ↔
              (∃ character ∈ line, Text.isBlank character = false) ∧
                Fails options (Text.trimEnd line))) := by
  have reported_iff (index : Nat) (line : List Char)
      (placed : (Text.lines text)[index]? = some line) :
      (∃ failed ∈ FailedLine.ofLines options (Text.lines text), failed.index = index) ↔
        (∃ character ∈ line, Text.isBlank character = false) ∧
          Fails options (Text.trimEnd line) := by
    constructor
    · rintro ⟨failed, failedMem, rfl⟩
      obtain ⟨placed2, notBlank, compile_eq⟩ := FailedLine.mem_ofLines_iff.mp failedMem
      cases placed.symm.trans placed2
      exact ⟨notBlank, failed.error, compile_eq⟩
    · rintro ⟨notBlank, error, compile_eq⟩
      exact ⟨⟨index, line, error⟩,
        FailedLine.mem_ofLines_iff.mpr ⟨placed, notBlank, compile_eq⟩, rfl⟩
  refine ⟨Text.lines text, FailedLine.ofLines options (Text.lines text),
    Text.splits_iff.mpr rfl, FailedLine.checkText_eq renderer options color path text,
    FailedLine.pairwise_ofLines options _, fun _ => FailedLine.mem_ofLines_iff, ?_⟩
  intro index line placed
  constructor
  · intro notForeign
    rw [reported_iff index line placed, fails_trimEnd_iff notForeign]
  · intro foreign
    exact ⟨foreign.fails, reported_iff index line placed⟩

/-- A line that ends with a no-break space does not compile and has no report. -/
theorem checkText_misses_noBreakSpace :
    Text.Splits ['a', 'b', '\u00a0', '\n'] [['a', 'b', '\u00a0']] ∧
      (∃ character ∈ ['a', 'b', '\u00a0'], Text.isBlank character = false) ∧
      Fails .default ['a', 'b', '\u00a0'] ∧
      ∀ renderer,
        checkText renderer .default false "rules.sig" ['a', 'b', '\u00a0', '\n'] = [] := by
  have splits : Text.Splits ['a', 'b', '\u00a0', '\n'] [['a', 'b', '\u00a0']] :=
    @Text.Splits.feed ['a', 'b', '\u00a0'] [] [] (by decide) (by decide) .nil
  have ends : Text.EndsBlank ['a', 'b', '\u00a0'] ['a', 'b'] ['\u00a0'] :=
    ⟨rfl, List.forall_mem_singleton.mpr rfl, fun _ isLast => by cases isLast; rfl⟩
  have read : Pattern.read CompileOptions.default.nestingLimit "ab" =
      .ok (.concat (.symbol 97) (.symbol 98)) := rfl
  obtain ⟨compilation, done⟩ := exists_compile_eq_ok read (by decide) (by decide)
  obtain ⟨table, made, -⟩ := (compiled_of_compile done).exists_table (by decide)
  have compiles : compileTable .default "ab" = .ok table := by
    rw [compileTable, done]
    exact made
  refine ⟨splits, ⟨'a', by decide, by decide⟩, ?_, ?_⟩
  · exact EndsForeign.fails ⟨_, _, ends, '\u00a0', by decide, by decide⟩
  · have trimmed : Text.trimEnd ['a', 'b', '\u00a0'] = ['a', 'b'] := by decide
    intro renderer
    rw [FailedLine.checkText_eq, splits.lines_eq]
    simp [FailedLine.ofLines, FailedLine.ofLine?, trimmed, compiles]

end ByteSignature
