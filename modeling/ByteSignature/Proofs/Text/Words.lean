import ByteSignature.Text.Blank

/-!
# Words between blanks

Words that are joined by single spaces are read back as they are.  A blank text has none.  In
general the words of a text are the only way to tile what is not blank with words that end at
blanks or at the end of the text.
-/

namespace ByteSignature.Text

/-- A text that has characters, none of them blank. -/
def IsWord (text : List Char) : Prop :=
  text ≠ [] ∧ ∀ character ∈ text, isBlank character = false

/-- Visible ASCII characters are not blank. -/
theorem isBlank_of_visible {character : Char} (low : 0x21 ≤ character.toNat)
    (high : character.toNat ≤ 0x7e) : isBlank character = false := by
  simp only [isBlank, Bool.or_eq_false_iff, Bool.and_eq_false_iff, decide_eq_false_iff_not,
    beq_eq_false_iff_ne]
  omega

/-- Words with a space between each two. -/
def unwords (list : List (List Char)) : List Char :=
  [' '].intercalate list

theorem unwords_cons_cons (word word2 : List Char) (list : List (List Char)) :
    unwords (word :: word2 :: list) = word ++ ' ' :: unwords (word2 :: list) := by
  simp [unwords, List.intercalate]

/-- The characters between words are spaces. -/
theorem eq_space_of_mem_unwords {list : List (List Char)}
    (areWords : ∀ word ∈ list, IsWord word) {character : Char}
    (characterMem : character ∈ unwords list) (blank : isBlank character = true) :
    character = ' ' := by
  induction list with
  | nil => cases characterMem
  | cons word list ih =>
      rw [List.forall_mem_cons] at areWords
      have notMem : character ∉ word := by
        intro wordMem
        rw [areWords.1.2 character wordMem] at blank
        cases blank
      cases list with
      | nil =>
          rw [unwords, List.intercalate_singleton] at characterMem
          exact absurd characterMem notMem
      | cons word2 list =>
          rw [unwords_cons_cons, List.mem_append, List.mem_cons] at characterMem
          rcases characterMem with wordMem | isSpace | laterMem
          · exact absurd wordMem notMem
          · exact isSpace
          · exact ih areWords.2 laterMem

/-! ## Reading words -/

theorem Words.prepend_of_isBlank {character : Char} (blank : isBlank character = true)
    (found : Words) : Words.prepend character found = ⟨false, found.words⟩ := by
  rw [Words.prepend, if_pos blank]

/-- A word is put to the left of other words as a whole. -/
theorem foldr_prepend_word {word : List Char} (isWord : IsWord word)
    (list : List (List Char)) :
    word.foldr Words.prepend ⟨false, list⟩ = ⟨true, word :: list⟩ := by
  obtain ⟨ne_nil, notBlank⟩ := isWord
  induction word with
  | nil => exact absurd rfl ne_nil
  | cons character rest ih =>
      rw [List.forall_mem_cons] at notBlank
      rw [List.foldr_cons]
      cases rest with
      | nil => simp [Words.prepend, notBlank.1]
      | cons next rest =>
          rw [ih (List.cons_ne_nil _ _) notBlank.2]
          simp [Words.prepend, notBlank.1]

theorem words_of_isWord {word : List Char} (isWord : IsWord word) : words word = [word] := by
  rw [words, foldr_prepend_word isWord]

theorem words_cons_of_isBlank {character : Char} (blank : isBlank character = true)
    (rest : List Char) : words (character :: rest) = words rest := by
  rw [words, List.foldr_cons, Words.prepend_of_isBlank blank, words]

theorem words_append_blank {word : List Char} (isWord : IsWord word) {gap : Char}
    (blank : isBlank gap = true) (rest : List Char) :
    words (word ++ gap :: rest) = word :: words rest := by
  rw [words, List.foldr_append, List.foldr_cons, Words.prepend_of_isBlank blank,
    foldr_prepend_word isWord, words]

theorem words_append_singleton_blank (text : List Char) {gap : Char}
    (blank : isBlank gap = true) : words (text ++ [gap]) = words text := by
  rw [words, List.foldr_append, List.foldr_cons, List.foldr_nil, Words.prepend_of_isBlank blank,
    words]

/-- Joined words are read back. -/
theorem words_unwords {list : List (List Char)} (areWords : ∀ word ∈ list, IsWord word) :
    words (unwords list) = list := by
  induction list with
  | nil => rfl
  | cons word list ih =>
      rw [List.forall_mem_cons] at areWords
      cases list with
      | nil =>
          rw [unwords, List.intercalate_singleton]
          exact words_of_isWord areWords.1
      | cons word2 list =>
          rw [unwords_cons_cons, words_append_blank areWords.1 rfl, ih areWords.2]

theorem words_eq_nil_of_forall_isBlank {text : List Char}
    (blank : ∀ character ∈ text, isBlank character = true) : words text = [] := by
  induction text with
  | nil => rfl
  | cons character rest ih =>
      rw [List.forall_mem_cons] at blank
      rw [words_cons_of_isBlank blank.1]
      exact ih blank.2

/-! ## Tilings -/

/-- The text consists of the words in order and of blanks, and behind every word stands a
blank or nothing. -/
inductive Spaced : List (List Char) → List Char → Prop where
  | nil : Spaced [] []
  | blank {list : List (List Char)} {rest : List Char} (character : Char)
      (blank : isBlank character = true) (behind : Spaced list rest) :
      Spaced list (character :: rest)
  | word {list : List (List Char)} {rest : List Char} (word : List Char) (isWord : IsWord word)
      (stops : ∀ character ∈ rest.head?, isBlank character = true) (behind : Spaced list rest) :
      Spaced (word :: list) (word ++ rest)

/-- A character that is not blank opens a word or lengthens the first one. -/
theorem Spaced.exists_cons {list : List (List Char)} {text : List Char} (spaced : Spaced list text)
    {character : Char} (notBlank : isBlank character = false) :
    ∃ list2, Spaced list2 (character :: text) := by
  have isWord : IsWord [character] := ⟨List.cons_ne_nil _ _, List.forall_mem_singleton.mpr notBlank⟩
  cases spaced with
  | nil => exact ⟨_, .word [character] isWord (by simp) .nil⟩
  | blank gap blank behind =>
      exact ⟨_, .word [character] isWord (by simpa using blank) (.blank gap blank behind)⟩
  | word word isWord2 stops behind =>
      refine ⟨_, .word (character :: word) ⟨List.cons_ne_nil _ _, ?_⟩ stops behind⟩
      exact List.forall_mem_cons.mpr ⟨notBlank, isWord2.2⟩

theorem exists_spaced (text : List Char) : ∃ list, Spaced list text := by
  induction text with
  | nil => exact ⟨[], .nil⟩
  | cons character rest ih =>
      obtain ⟨list, spaced⟩ := ih
      cases blank : isBlank character with
      | true => exact ⟨list, .blank character blank spaced⟩
      | false => exact spaced.exists_cons blank

theorem Spaced.words_eq {list : List (List Char)} {text : List Char}
    (spaced : Spaced list text) : words text = list := by
  induction spaced with
  | nil => rfl
  | blank character blank behind ih => rw [words_cons_of_isBlank blank, ih]
  | @word list rest word isWord stops behind ih =>
      cases rest with
      | nil =>
          rw [List.append_nil, words_of_isWord isWord, ← ih]
          rfl
      | cons gap rest =>
          have blank : isBlank gap = true := stops gap rfl
          rw [words_append_blank isWord blank, ← ih, words_cons_of_isBlank blank]

/-- The words of a text are the only ones it can be tiled with. -/
theorem spaced_iff {list : List (List Char)} {text : List Char} :
    Spaced list text ↔ words text = list := by
  constructor
  · exact Spaced.words_eq
  · rintro rfl
    obtain ⟨list, spaced⟩ := exists_spaced text
    rwa [spaced.words_eq]

/-- Only a blank text has no words. -/
theorem words_eq_nil_iff {line : List Char} :
    words line = [] ↔ ∀ character ∈ line, isBlank character = true := by
  constructor
  · rw [← spaced_iff]
    intro noWords
    generalize none_eq : [] = list at noWords
    induction noWords with
    | nil => exact List.forall_mem_nil _
    | blank character blank _ ih => exact List.forall_mem_cons.mpr ⟨blank, ih none_eq⟩
    | word => cases none_eq
  · exact words_eq_nil_of_forall_isBlank

end ByteSignature.Text
