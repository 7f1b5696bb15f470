import ByteSignature.Proofs.Text.Words
import ByteSignature.Text.Lines
import Mathlib.Data.List.Basic

/-!
# Texts laid out in lines

A text is cut at a line feed, and what stands on either side is cut for itself.  So the
lines of a text can be told one by one, whichever of the two line ends each of them has.
A text may be laid out anew: its lines in another order, other line ends, blank lines
anywhere, and no end behind the last line.  The lines that are not blank then are the same.
-/

namespace ByteSignature.Text

/-! ## Cutting -/

/-- Lines that lie behind the first one have no part in what is put to the left. -/
theorem Lines.prepend_append (character : Char) (atBreak : Bool) (line : List Char)
    (near far : List (List Char)) :
    ∃ atBreak2 line2 near2,
      Lines.prepend character ⟨atBreak, line :: near⟩ = ⟨atBreak2, line2 :: near2⟩ ∧
        Lines.prepend character ⟨atBreak, line :: near ++ far⟩ =
          ⟨atBreak2, line2 :: near2 ++ far⟩ := by
  by_cases isFeed : character = '\n'
  · exact ⟨true, [], line :: near, by simp [Lines.prepend, isFeed]⟩
  · by_cases isReturn : (atBreak && character = '\r') = true
    · exact ⟨false, line, near, by simp [Lines.prepend, isFeed, isReturn]⟩
    · exact ⟨false, character :: line, near, by simp [Lines.prepend, isFeed, isReturn]⟩

theorem foldr_prepend_append (text : List Char) (atBreak : Bool) (line : List Char)
    (near far : List (List Char)) :
    ∃ atBreak2 line2 near2,
      text.foldr Lines.prepend ⟨atBreak, line :: near⟩ = ⟨atBreak2, line2 :: near2⟩ ∧
        text.foldr Lines.prepend ⟨atBreak, line :: near ++ far⟩ =
          ⟨atBreak2, line2 :: near2 ++ far⟩ := by
  induction text with
  | nil => exact ⟨atBreak, line, near, rfl, rfl⟩
  | cons character rest ih =>
      obtain ⟨atBreak2, line2, near2, alone, together⟩ := ih
      rw [List.foldr_cons, List.foldr_cons, alone, together]
      exact Lines.prepend_append character atBreak2 line2 near2 far

/-- A text is cut at a line feed. -/
theorem lines_append_feed (first rest : List Char) :
    lines (first ++ '\n' :: rest) = lines (first ++ ['\n']) ++ lines rest := by
  obtain ⟨_, _, _, alone, together⟩ := foldr_prepend_append first true [] [] (lines rest)
  have feed (found : Lines) : Lines.prepend '\n' found = ⟨true, [] :: found.lines⟩ := rfl
  rw [lines, lines, List.foldr_append, List.foldr_append, List.foldr_cons, List.foldr_cons,
    feed, feed, List.foldr_nil, alone]
  exact congrArg Lines.lines together

theorem Lines.mem_of_mem_prepend {character other : Char} {found : Lines} {line : List Char}
    (lineMem : line ∈ (found.prepend character).lines) (otherMem : other ∈ line) :
    other = character ∨ ∃ line2 ∈ found.lines, other ∈ line2 := by
  rw [Lines.prepend] at lineMem
  split at lineMem
  · rcases List.mem_cons.mp lineMem with rfl | foundMem
    · cases otherMem
    · exact .inr ⟨line, foundMem, otherMem⟩
  · split at lineMem
    · exact .inr ⟨line, lineMem, otherMem⟩
    · split at lineMem
      · rw [List.mem_singleton.mp lineMem, List.mem_singleton] at otherMem
        exact .inl otherMem
      · rename_i first later found_eq
        rw [found_eq]
        rcases List.mem_cons.mp lineMem with rfl | laterMem
        · rcases List.mem_cons.mp otherMem with isNew | firstMem
          · exact .inl isNew
          · exact .inr ⟨first, List.mem_cons_self, firstMem⟩
        · exact .inr ⟨line, List.mem_cons_of_mem _ laterMem, otherMem⟩

/-- Lines hold no characters but those of the text. -/
theorem mem_of_mem_lines {text line : List Char} {character : Char}
    (lineMem : line ∈ lines text) (characterMem : character ∈ line) : character ∈ text := by
  induction text generalizing line with
  | nil => cases lineMem
  | cons first rest ih =>
      rcases Lines.mem_of_mem_prepend lineMem characterMem with rfl | ⟨line2, line2Mem, mem2⟩
      · exact List.mem_cons_self
      · exact List.mem_cons_of_mem _ (ih line2Mem mem2)

/-! ## One line -/

/-- The characters of a line are put to the left of its rest. -/
theorem foldr_prepend_line {text : List Char} (noFeed : '\n' ∉ text) (line : List Char)
    (later : List (List Char)) :
    text.foldr Lines.prepend ⟨false, line :: later⟩ = ⟨false, (text ++ line) :: later⟩ := by
  induction text with
  | nil => rfl
  | cons character rest ih =>
      rw [List.mem_cons, not_or] at noFeed
      rw [List.foldr_cons, ih noFeed.2]
      simp [Lines.prepend, Ne.symm noFeed.1]

/-- A text without a line feed is one line. -/
theorem lines_of_notMem {text : List Char} (ne_nil : text ≠ []) (noFeed : '\n' ∉ text) :
    lines text = [text] := by
  obtain ⟨before, last, rfl⟩ := (List.eq_nil_or_concat' text).resolve_left ne_nil
  rw [List.mem_append, not_or, List.mem_singleton] at noFeed
  have lastLine : Lines.prepend last ⟨false, []⟩ = ⟨false, [[last]]⟩ := by
    simp [Lines.prepend, Ne.symm noFeed.2]
  rw [lines, List.foldr_append, List.foldr_cons, List.foldr_nil, lastLine,
    foldr_prepend_line noFeed.1]

/-- What ends a line. -/
inductive LineEnd where
  | feed
  | returnFeed
  deriving DecidableEq, Repr

/-- The characters of a line end. -/
def LineEnd.text : LineEnd → List Char
  | feed => ['\n']
  | returnFeed => ['\r', '\n']

theorem lines_append_returnFeed {text : List Char} (noFeed : '\n' ∉ text) :
    lines (text ++ ['\r', '\n']) = [text] := by
  have atReturn : ['\r', '\n'].foldr Lines.prepend ⟨false, []⟩ = ⟨false, [[]]⟩ := rfl
  rw [lines, List.foldr_append, atReturn, foldr_prepend_line noFeed, List.append_nil]

theorem lines_append_singleton_feed {text : List Char} (noFeed : '\n' ∉ text)
    (noReturn : text.getLast? ≠ some '\r') : lines (text ++ ['\n']) = [text] := by
  rcases List.eq_nil_or_concat' text with rfl | ⟨before, last, rfl⟩
  · rfl
  · rw [List.mem_append, not_or, List.mem_singleton] at noFeed
    rw [List.getLast?_concat, ne_eq, Option.some.injEq] at noReturn
    have lastLine : Lines.prepend last ⟨true, [[]]⟩ = ⟨false, [[last]]⟩ := by
      simp [Lines.prepend, Ne.symm noFeed.2, noReturn]
    have atFeed : [last, '\n'].foldr Lines.prepend ⟨false, []⟩ = ⟨false, [[last]]⟩ := lastLine
    rw [List.append_assoc, List.singleton_append, lines, List.foldr_append, atFeed,
      foldr_prepend_line noFeed.1]

/-- A line with its end behind it. -/
theorem lines_append_lineEnd {text : List Char} (noFeed : '\n' ∉ text) (noReturn : '\r' ∉ text)
    (stop : LineEnd) : lines (text ++ stop.text) = [text] := by
  cases stop with
  | feed =>
      exact lines_append_singleton_feed noFeed fun isLast =>
        noReturn (List.mem_of_getLast? isLast)
  | returnFeed => exact lines_append_returnFeed noFeed

theorem lines_append_lineEnd_append (text rest : List Char) (stop : LineEnd) :
    lines (text ++ stop.text ++ rest) = lines (text ++ stop.text) ++ lines rest := by
  cases stop with
  | feed =>
      rw [LineEnd.text, List.append_assoc, List.singleton_append, lines_append_feed]
  | returnFeed =>
      have cut := lines_append_feed (text ++ ['\r']) rest
      simpa [LineEnd.text] using cut

/-! ## Laying out lines -/

/-- The text holds the lines in order, each with a line end behind it.  Blank lines may
stand anywhere, and at the end of the text the line end may be missing. -/
inductive Lays : List (List Char) → List Char → Prop where
  | line {later : List (List Char)} {rest : List Char} (line : List Char) (stop : LineEnd)
      (behind : Lays later rest) : Lays (line :: later) (line ++ stop.text ++ rest)
  | blank {later : List (List Char)} {rest : List Char} (line : List Char)
      (blank : ∀ character ∈ line, isBlank character = true) (stop : LineEnd)
      (behind : Lays later rest) : Lays later (line ++ stop.text ++ rest)
  | lastLine (line : List Char) : Lays [line] line
  | lastBlank (line : List Char) (blank : ∀ character ∈ line, isBlank character = true) :
      Lays [] line

/-- The second text holds the lines of the first in some order, with blank lines and line
ends of its own. -/
def Relaid (text text2 : List Char) : Prop :=
  ∃ order, order.Perm (lines text) ∧ Lays order text2

/-- The line has words and no character of a line end. -/
structure IsRow (line : List Char) : Prop where
  words_ne_nil : words line ≠ []
  noFeed : '\n' ∉ line
  noReturn : '\r' ∉ line

/-- The lines that are not blank. -/
def wordyLines (text : List Char) : List (List Char) :=
  (lines text).filter fun line => !(words line).isEmpty

theorem wordyLines_append_lineEnd (text rest : List Char) (stop : LineEnd) :
    wordyLines (text ++ stop.text ++ rest) = wordyLines (text ++ stop.text) ++ wordyLines rest := by
  rw [wordyLines, lines_append_lineEnd_append, List.filter_append]
  rfl

theorem wordyLines_of_forall_isBlank {text : List Char}
    (blank : ∀ character ∈ text, isBlank character = true) : wordyLines text = [] := by
  rw [wordyLines, List.filter_eq_nil_iff]
  intro line lineMem
  have noWords : words line = [] := words_eq_nil_of_forall_isBlank fun character characterMem =>
    blank character (mem_of_mem_lines lineMem characterMem)
  simp [noWords]

theorem LineEnd.isBlank_of_mem {stop : LineEnd} {character : Char}
    (characterMem : character ∈ stop.text) : isBlank character = true := by
  cases stop with
  | feed =>
      rw [List.mem_singleton.mp characterMem]
      rfl
  | returnFeed =>
      rcases List.mem_cons.mp characterMem with rfl | feedMem
      · rfl
      · rw [List.mem_singleton.mp feedMem]
        rfl

/-- The lines of a text that are not blank are those that were laid out. -/
theorem Lays.wordyLines_eq {order : List (List Char)} {text : List Char} (lays : Lays order text)
    (rows : ∀ line ∈ order, IsRow line) : wordyLines text = order := by
  have alone {line : List Char} (isRow : IsRow line) :
      [line].filter (fun line => !(words line).isEmpty) = [line] := by
    simp [isRow.words_ne_nil]
  induction lays with
  | line line stop behind ih =>
      rw [List.forall_mem_cons] at rows
      rw [wordyLines_append_lineEnd, ih rows.2, wordyLines,
        lines_append_lineEnd rows.1.noFeed rows.1.noReturn, alone rows.1, List.singleton_append]
  | blank line blank stop behind ih =>
      have allBlank : ∀ character ∈ line ++ stop.text, isBlank character = true := by
        intro character characterMem
        rcases List.mem_append.mp characterMem with lineMem | stopMem
        · exact blank character lineMem
        · exact LineEnd.isBlank_of_mem stopMem
      rw [wordyLines_append_lineEnd, ih rows, wordyLines_of_forall_isBlank allBlank,
        List.nil_append]
  | lastLine line =>
      have isRow := rows line List.mem_cons_self
      have ne_nil : line ≠ [] := by
        rintro rfl
        exact isRow.words_ne_nil rfl
      rw [wordyLines, lines_of_notMem ne_nil isRow.noFeed, alone isRow]
  | lastBlank line blank => exact wordyLines_of_forall_isBlank blank

end ByteSignature.Text
