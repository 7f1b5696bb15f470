import ByteSignature.Proofs.Text.Lines

/-!
# The first lines of a text

A text up to the end of some line has the lines up to there.  When such a text is continued
behind the end of its last line, or behind an end that it is given, its lines keep their words:
at most a carriage return at the end of the last line is lost, which is a blank.
-/

namespace ByteSignature.Text

/-- A text up to and with its line feed of some number, or all of it if it has fewer. -/
def firstLines : (count : Nat) → List Char → List Char
  | 0, _ => []
  | _ + 1, [] => []
  | count + 1, character :: rest =>
      character :: firstLines (if character = '\n' then count else count + 1) rest

@[simp]
theorem firstLines_zero (text : List Char) : firstLines 0 text = [] := by
  cases text <;> rfl

/-- Some lines without the later ones. -/
def Lines.take (count : Nat) (found : Lines) : Lines :=
  ⟨found.atBreak, found.lines.take count⟩

/-- What is put into the first line does not depend on the later ones. -/
theorem Lines.prepend_take {character : Char} (notFeed : character ≠ '\n') (count : Nat)
    (found : Lines) :
    Lines.prepend character (found.take (count + 1)) =
      (Lines.prepend character found).take (count + 1) := by
  rcases found with ⟨atBreak, list⟩
  by_cases isReturn : (atBreak && character = '\r') = true
  · simp [Lines.prepend, Lines.take, notFeed, isReturn]
  · cases list <;> simp [Lines.prepend, Lines.take, notFeed, isReturn]

theorem foldr_prepend_firstLines (count : Nat) (text : List Char) :
    (firstLines (count + 1) text).foldr Lines.prepend ⟨false, []⟩ =
      (text.foldr Lines.prepend ⟨false, []⟩).take (count + 1) := by
  induction text generalizing count with
  | nil => rfl
  | cons character rest ih =>
      by_cases isFeed : character = '\n'
      · subst isFeed
        have feed (found : Lines) : Lines.prepend '\n' found = ⟨true, [] :: found.lines⟩ := rfl
        rw [firstLines, if_pos rfl, List.foldr_cons, List.foldr_cons, feed, feed]
        cases count with
        | zero => simp [Lines.take]
        | succ count =>
            rw [ih count]
            rfl
      · rw [firstLines, if_neg isFeed, List.foldr_cons, List.foldr_cons, ih count,
          Lines.prepend_take isFeed]

/-- The first lines of a text are the first of its lines. -/
theorem lines_firstLines (count : Nat) (text : List Char) :
    lines (firstLines count text) = (lines text).take count := by
  cases count with
  | zero =>
      rw [firstLines_zero, List.take_zero]
      rfl
  | succ count => exact congrArg Lines.lines (foldr_prepend_firstLines count text)

/-! ## Continuing -/

/-- The second text is the first one with nothing behind it, or with anything behind the end of
its last line, which is there or is put there. -/
inductive Continues (front : List Char) : List Char → Prop where
  | nothing : Continues front front
  | behindFeed (ends : front.getLast? = some '\n') (rest : List Char) :
      Continues front (front ++ rest)
  | behindLine (stop : LineEnd) (rest : List Char) : Continues front (front ++ stop.text ++ rest)

theorem Continues.cons {front text : List Char} (character : Char)
    (continues : Continues front text) : Continues (character :: front) (character :: text) := by
  cases continues with
  | nothing => exact .nothing
  | behindFeed ends rest =>
      obtain ⟨before, rfl⟩ := List.getLast?_eq_some_iff.mp ends
      have ends2 : (character :: (before ++ ['\n'])).getLast? = some '\n' := by
        rw [← List.cons_append]
        exact List.getLast?_concat
      exact .behindFeed ends2 rest
  | behindLine stop rest => exact .behindLine stop rest

/-- A line that is given an end stays one line and keeps its words. -/
theorem exists_lines_append_eq {line : List Char} (ne_nil : line ≠ []) (noFeed : '\n' ∉ line)
    (stop : LineEnd) : ∃ line2, lines (line ++ stop.text) = [line2] ∧ words line2 = words line := by
  cases stop with
  | returnFeed => exact ⟨line, lines_append_returnFeed noFeed, rfl⟩
  | feed =>
      by_cases isReturn : line.getLast? = some '\r'
      · -- The carriage return that was there becomes a part of the end.
        obtain ⟨before, rfl⟩ := List.getLast?_eq_some_iff.mp isReturn
        refine ⟨before, ?_, (words_append_singleton_blank before rfl).symm⟩
        rw [LineEnd.text, List.append_assoc]
        exact lines_append_returnFeed fun feedMem => noFeed (List.mem_append_left _ feedMem)
      · exact ⟨line, lines_append_singleton_feed noFeed isReturn, rfl⟩

/-- A text is cut at its last line feed, if it has one. -/
theorem exists_eq_append_of_feed_mem {text : List Char} (feedMem : '\n' ∈ text) :
    ∃ before line, text = before ++ '\n' :: line ∧ '\n' ∉ line := by
  obtain ⟨reversed, beforeReversed, text_eq, noFeed⟩ :=
    List.eq_append_cons_of_mem (List.mem_reverse.mpr feedMem)
  refine ⟨beforeReversed.reverse, reversed.reverse, ?_, ?_⟩
  · rw [← List.reverse_reverse text, text_eq]
    simp
  · rwa [List.mem_reverse]

theorem map_words_lines_isPrefix_of_notMem {line : List Char} (noFeed : '\n' ∉ line)
    (stop : LineEnd) : (lines line).map words <+: (lines (line ++ stop.text)).map words := by
  by_cases isNil : line = []
  · rw [isNil]
    exact List.nil_prefix
  · obtain ⟨line2, lines_eq, words_eq⟩ := exists_lines_append_eq isNil noFeed stop
    have same : (lines line).map words = (lines (line ++ stop.text)).map words := by
      rw [lines_of_notMem isNil noFeed, lines_eq, List.map_singleton, List.map_singleton, words_eq]
    exact same ▸ List.prefix_rfl

/-- The lines of a text keep their words when the last one is given an end. -/
theorem map_words_lines_isPrefix (text : List Char) (stop : LineEnd) :
    (lines text).map words <+: (lines (text ++ stop.text)).map words := by
  by_cases feedMem : '\n' ∈ text
  · obtain ⟨before, line, rfl, noFeed⟩ := exists_eq_append_of_feed_mem feedMem
    rw [List.append_assoc, List.cons_append, lines_append_feed before line,
      lines_append_feed before (line ++ stop.text), List.map_append, List.map_append,
      List.prefix_append_right_inj]
    exact map_words_lines_isPrefix_of_notMem noFeed stop
  · exact map_words_lines_isPrefix_of_notMem feedMem stop

/-- Lines keep their words when the text is continued behind them. -/
theorem Continues.map_words_lines_isPrefix {front text : List Char}
    (continues : Continues front text) : (lines front).map words <+: (lines text).map words := by
  cases continues with
  | nothing => exact List.prefix_rfl
  | behindFeed ends rest =>
      obtain ⟨before, rfl⟩ := List.getLast?_eq_some_iff.mp ends
      rw [List.append_assoc, List.singleton_append, lines_append_feed before rest,
        List.map_append]
      exact List.prefix_append _ _
  | behindLine stop rest =>
      rw [lines_append_lineEnd_append, List.map_append]
      exact (Text.map_words_lines_isPrefix front stop).trans (List.prefix_append _ _)

end ByteSignature.Text
