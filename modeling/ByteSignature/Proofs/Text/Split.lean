import ByteSignature.Proofs.Text.Lines
import Mathlib.Data.List.TakeWhile

/-!
# Splitting texts

A text is split into lines in one way only: every line but the last one ends at a line feed or at
a carriage return and a line feed, and the last one may end with the text.  A line is split in one
way into what is left when it is trimmed, which does not end with a blank, and the blanks behind.
-/

namespace ByteSignature.Text

/-! ## Lines -/

/-- The text is split into lines at its line ends, which belong to no line.  A carriage return
in front of a line feed is part of the line end. -/
inductive Splits : List Char → List (List Char) → Prop where
  | nil : Splits [] []
  | last {line : List Char} (ne_nil : line ≠ []) (noFeed : '\n' ∉ line) : Splits line [line]
  | feed {line rest : List Char} {later : List (List Char)} (noFeed : '\n' ∉ line)
      (noReturn : line.getLast? ≠ some '\r') (behind : Splits rest later) :
      Splits (line ++ LineEnd.feed.text ++ rest) (line :: later)
  | returnFeed {line rest : List Char} {later : List (List Char)} (noFeed : '\n' ∉ line)
      (behind : Splits rest later) :
      Splits (line ++ LineEnd.returnFeed.text ++ rest) (line :: later)

theorem Splits.lines_eq {text : List Char} {found : List (List Char)} (splits : Splits text found) :
    lines text = found := by
  induction splits with
  | nil => rfl
  | last ne_nil noFeed => exact lines_of_notMem ne_nil noFeed
  | feed noFeed noReturn behind ih =>
      rw [lines_append_lineEnd_append, ih]
      exact congrArg (· ++ _) (lines_append_singleton_feed noFeed noReturn)
  | returnFeed noFeed behind ih =>
      rw [lines_append_lineEnd_append, ih]
      exact congrArg (· ++ _) (lines_append_returnFeed noFeed)

theorem exists_splits (text : List Char) : ∃ found, Splits text found := by
  induction size_eq : text.length using Nat.strongRecOn generalizing text with
  | ind size ih =>
      subst size_eq
      by_cases feedMem : '\n' ∈ text
      · obtain ⟨line, rest, rfl, noFeed⟩ := List.eq_append_cons_of_mem feedMem
        have shorter : rest.length < (line ++ '\n' :: rest).length := by
          rw [List.length_append, List.length_cons]
          omega
        obtain ⟨later, behind⟩ := ih rest.length shorter rest rfl
        by_cases endsReturn : line.getLast? = some '\r'
        · obtain ⟨body, rfl⟩ := List.getLast?_eq_some_iff.mp endsReturn
          have noFeedBody : '\n' ∉ body := fun bodyMem =>
            noFeed (List.mem_append_left _ bodyMem)
          refine ⟨body :: later, ?_⟩
          simpa [LineEnd.text] using Splits.returnFeed noFeedBody behind
        · refine ⟨line :: later, ?_⟩
          simpa [LineEnd.text] using Splits.feed noFeed endsReturn behind
      · by_cases eq_nil : text = []
        · subst eq_nil
          exact ⟨[], .nil⟩
        · exact ⟨[text], .last eq_nil feedMem⟩

/-- The lines of a text are what it is split into. -/
theorem splits_iff {text : List Char} {found : List (List Char)} :
    Splits text found ↔ lines text = found := by
  constructor
  · exact Splits.lines_eq
  · rintro rfl
    obtain ⟨found, splits⟩ := exists_splits text
    rwa [splits.lines_eq]

/-! ## Blanks behind a line -/

/-- The line is the body with the blanks behind, and the body does not end with a blank. -/
structure EndsBlank (line body blanks : List Char) : Prop where
  line_eq : line = body ++ blanks
  blank : ∀ character ∈ blanks, isBlank character = true
  last : ∀ character ∈ body.getLast?, isBlank character = false

theorem exists_endsBlank_trimEnd (line : List Char) :
    ∃ blanks, EndsBlank line (trimEnd line) blanks := by
  refine ⟨(line.reverse.takeWhile isBlank).reverse, ?_, ?_, ?_⟩
  · rw [trimEnd, ← List.reverse_append, List.takeWhile_append_dropWhile, List.reverse_reverse]
  · intro character characterMem
    exact List.mem_takeWhile_imp (List.mem_reverse.mp characterMem)
  · intro character isLast
    rw [trimEnd, List.getLast?_reverse, Option.mem_def] at isLast
    have notBlank := List.head?_dropWhile_not isBlank line.reverse
    rw [isLast] at notBlank
    simpa using notBlank

/-- Nothing is left of the blank lines and of no others. -/
theorem trimEnd_eq_nil_iff {line : List Char} :
    trimEnd line = [] ↔ ∀ character ∈ line, isBlank character = true := by
  rw [trimEnd, List.reverse_eq_nil_iff, List.dropWhile_eq_nil_iff]
  simp only [List.mem_reverse]

end ByteSignature.Text
