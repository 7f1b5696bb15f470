import ByteSignature.Proofs.Pattern.Runs

/-!
# Pieces from longest matches

A recognizer goes through a text from left to right.  It hands out the longest match of a class
where there is one, and else one character that it does not recognize.  Gathering what it hands
out, with neighbouring unrecognized characters in one piece, comes to the same as putting the
characters of the text together from the last to the first.
-/

namespace ByteSignature

open Text

namespace TokenKind

/-- The class has the characters for a match: they are listed for it, and there is one of them
unless they are blanks.  Garbage matches nothing. -/
structure Matches (kind : TokenKind) (text : List Char) : Prop where
  ne_nil : text ≠ []
  lists : ∀ character ∈ text, kind.Lists character
  single : kind ≠ blank → text.length = 1

/-- Of the texts that some characters and those behind them begin with, no class matches one
that is longer than the characters. -/
def NoneLonger (text rest : List Char) : Prop :=
  ∀ (kind : TokenKind) (text2 : List Char), text2 <+: text ++ rest → kind.Matches text2 →
    text2.length ≤ text.length

/-- No class matches a text that the characters begin with. -/
def Unmatched (characters : List Char) : Prop :=
  ∀ (kind : TokenKind) (text : List Char), text <+: characters → ¬ kind.Matches text

end TokenKind

/-- What a recognizer hands out for some characters, the first of which stands at an offset: the
longest match where some class has a match, and one character else. -/
inductive Recognizes : Nat → List Char → List Recognized → Prop where
  | done (offset : Nat) : Recognizes offset [] []
  | longest {offset : Nat} {kind : TokenKind} {text rest : List Char} {items : List Recognized}
      (isMatch : kind.Matches text) (noneLonger : TokenKind.NoneLonger text rest)
      (behind : Recognizes (offset + utf8Length text) rest items) :
      Recognizes offset (text ++ rest)
        (⟨some kind, offset, offset + utf8Length text⟩ :: items)
  | unknown {offset : Nat} {character : Char} {rest : List Char} {items : List Recognized}
      (unmatched : TokenKind.Unmatched (character :: rest))
      (behind : Recognizes (offset + character.utf8Size) rest items) :
      Recognizes offset (character :: rest)
        (⟨none, offset, offset + character.utf8Size⟩ :: items)

/-! ## Matches and classes -/

namespace TokenKind

theorem Matches.ofChar_eq {kind : TokenKind} {text : List Char} (isMatch : kind.Matches text) :
    ∀ character ∈ text, ofChar character = kind := by
  intro character characterMem
  exact ofChar_eq_of_lists (isMatch.lists character characterMem)

theorem Matches.ne_garbage {kind : TokenKind} {text : List Char} (isMatch : kind.Matches text) :
    kind ≠ garbage := by
  rintro rfl
  obtain ⟨character, characterMem⟩ := List.exists_mem_of_ne_nil text isMatch.ne_nil
  exact isMatch.lists character characterMem

/-- A recognized character is a match of its class. -/
theorem matches_singleton {character : Char} (recognized : ofChar character ≠ garbage) :
    (ofChar character).Matches [character] where
  ne_nil := List.cons_ne_nil _ _
  lists := List.forall_mem_singleton.mpr (lists_ofChar recognized)
  single _ := rfl

theorem Matches.uniform {kind : TokenKind} {text : List Char} (isMatch : kind.Matches text)
    (offset : Nat) : (⟨kind, offset, text⟩ : Token).Uniform :=
  ⟨isMatch.ofChar_eq, isMatch.ne_nil,
    fun noRuns => isMatch.single (formsRuns_eq_false_iff.mp noRuns).1⟩

/-- A longest match ends in front of a character that does not belong to its run. -/
theorem Matches.apart_of_noneLonger {kind : TokenKind} {text rest : List Char}
    (isMatch : kind.Matches text) (noneLonger : NoneLonger text rest) :
    ∀ character ∈ rest.head?, kind.Apart (ofChar character) := by
  intro character isHead
  obtain ⟨rest, rfl⟩ := List.head?_eq_some_iff.mp isHead
  refine ⟨?_, fun both => isMatch.ne_garbage both.1⟩
  rintro ⟨rfl, isBlank⟩
  have lists : blank.Lists character := by
    rw [← isBlank]
    exact lists_ofChar (by simp [isBlank])
  have longer : blank.Matches (text ++ [character]) := by
    refine ⟨by simp, ?_, fun notBlank => absurd rfl notBlank⟩
    intro other otherMem
    rcases List.mem_append.mp otherMem with textMem | isLast
    · exact isMatch.lists other textMem
    · rw [List.mem_singleton.mp isLast]
      exact lists
  have isPrefix : text ++ [character] <+: text ++ character :: rest := ⟨rest, by simp⟩
  have le := noneLonger _ _ isPrefix longer
  rw [List.length_append, List.length_singleton] at le
  exact Nat.lt_irrefl _ le

/-- A match that ends in front of a character that does not belong to its run is longest. -/
theorem Matches.noneLonger_of_apart {kind : TokenKind} {text rest : List Char}
    (isMatch : kind.Matches text)
    (ends : ∀ character ∈ rest.head?, kind.Apart (ofChar character)) : NoneLonger text rest := by
  intro other text2 isPrefix isMatch2
  by_contra longer
  rw [Nat.not_le] at longer
  obtain ⟨more, rfl⟩ := List.prefix_of_prefix_length_le (List.prefix_append text rest) isPrefix
    longer.le
  rw [List.prefix_append_right_inj] at isPrefix
  obtain ⟨character, textMem⟩ := List.exists_mem_of_ne_nil text isMatch.ne_nil
  have kind_eq : kind = other := (isMatch.ofChar_eq character textMem).symm.trans
    (isMatch2.ofChar_eq character (List.mem_append_left _ textMem))
  cases more with
  | nil => simp at longer
  | cons next more =>
      obtain ⟨rest, rfl⟩ := isPrefix
      have next_eq := isMatch2.ofChar_eq next (by simp)
      have apart := ends next rfl
      rw [kind_eq, next_eq] at apart
      have length_eq := isMatch2.single fun isBlank => apart.notBlank ⟨isBlank, isBlank⟩
      have pos := List.length_pos_of_ne_nil isMatch.ne_nil
      rw [List.length_append, List.length_cons] at length_eq
      omega

/-- A character that begins no match is garbage, and the other way round. -/
theorem unmatched_iff {character : Char} {rest : List Char} :
    Unmatched (character :: rest) ↔ ofChar character = garbage := by
  constructor
  · intro unmatched
    by_contra recognized
    exact unmatched _ [character] ⟨rest, rfl⟩ (matches_singleton recognized)
  · intro isGarbage kind text isPrefix isMatch
    obtain ⟨first, text, rfl⟩ := List.exists_cons_of_ne_nil isMatch.ne_nil
    obtain ⟨rfl, -⟩ := List.cons_prefix_cons.mp isPrefix
    have kind_eq := isMatch.ofChar_eq first List.mem_cons_self
    exact isMatch.ne_garbage (kind_eq.symm.trans isGarbage)

end TokenKind

/-! ## What is gathered -/

/-- The first item is of the class of the first character, unless that is not recognized. -/
theorem Recognizes.exists_eq_cons {offset : Nat} {character : Char} {rest : List Char}
    {items : List Recognized} (recognizes : Recognizes offset (character :: rest) items)
    (recognized : TokenKind.ofChar character ≠ .garbage) :
    ∃ start stop later, items = ⟨some (TokenKind.ofChar character), start, stop⟩ :: later := by
  generalize characters_eq : character :: rest = characters at recognizes
  cases recognizes with
  | done => cases characters_eq
  | longest isMatch =>
      obtain ⟨first, text, rfl⟩ := List.exists_cons_of_ne_nil isMatch.ne_nil
      obtain ⟨rfl, -⟩ := List.cons.inj characters_eq
      rw [isMatch.ofChar_eq character List.mem_cons_self]
      exact ⟨_, _, _, rfl⟩
  | unknown unmatched =>
      obtain ⟨rfl, -⟩ := List.cons.inj characters_eq
      exact absurd (TokenKind.unmatched_iff.mp unmatched) recognized

/-- A blank makes the longest match that begins behind it longer. -/
theorem Recognizes.cons_blank {offset start stop : Nat} {character : Char} {rest : List Char}
    {items : List Recognized} (isBlank : TokenKind.ofChar character = .blank)
    (recognizes : Recognizes (offset + character.utf8Size) rest
      (⟨some .blank, start, stop⟩ :: items)) :
    Recognizes offset (character :: rest) (⟨some .blank, offset, stop⟩ :: items) := by
  cases recognizes with
  | @longest _ _ text rest _ isMatch noneLonger behind =>
      have isMatch2 : TokenKind.blank.Matches (character :: text) := by
        refine ⟨List.cons_ne_nil _ _, ?_, fun notBlank => absurd rfl notBlank⟩
        rw [List.forall_mem_cons, ← isBlank]
        exact ⟨TokenKind.lists_ofChar (by simp [isBlank]), isBlank ▸ isMatch.lists⟩
      rw [Nat.add_assoc, ← utf8Length_cons] at behind ⊢
      exact .longest isMatch2
        (isMatch2.noneLonger_of_apart (isMatch.apart_of_noneLonger noneLonger)) behind

/-- The recognizer hands out the longest matches and the characters that begin none. -/
theorem recognizes_ofChars (offset : Nat) (characters : List Char) :
    Recognizes offset characters (Recognized.ofChars offset characters) := by
  induction characters generalizing offset with
  | nil => exact .done offset
  | cons character rest ih =>
      have behind := ih (offset + character.utf8Size)
      rw [Recognized.ofChars]
      generalize Recognized.ofChars (offset + character.utf8Size) rest = items at behind ⊢
      split
      · rename_i isGarbage
        exact .unknown (TokenKind.unmatched_iff.mpr isGarbage) behind
      · rename_i isBlank
        exact behind.cons_blank isBlank
      · rename_i recognized notJoined
        have isMatch := TokenKind.matches_singleton recognized
        have ends : ∀ next ∈ rest.head?,
            (TokenKind.ofChar character).Apart (TokenKind.ofChar next) := by
          intro next isHead
          obtain ⟨rest, rfl⟩ := List.head?_eq_some_iff.mp isHead
          refine ⟨?_, fun both => recognized both.1⟩
          rintro ⟨isBlank, nextBlank⟩
          obtain ⟨start, stop, later, items_eq⟩ := behind.exists_eq_cons (by simp [nextBlank])
          rw [nextBlank] at items_eq
          exact notJoined _ _ _ isBlank items_eq
        exact @Recognizes.longest offset _ [character] rest _ isMatch
          (isMatch.noneLonger_of_apart ends) behind

/-- Where gathering stands: some garbage in front of an offset is not a piece yet, and its start
is known if there is any. -/
structure Begun (begun? : Option Nat) (start : Nat) (run : List Char) (offset : Nat) : Prop where
  begun_eq : begun? = if run = [] then none else some start
  garbage : ∀ character ∈ run, TokenKind.ofChar character = .garbage
  offset_eq : offset = start + utf8Length run

namespace Begun

variable {begun? : Option Nat} {start offset : Nat} {run : List Char}

theorem nothing (offset : Nat) : Begun none offset [] offset where
  begun_eq := rfl
  garbage := List.forall_mem_nil _
  offset_eq := rfl

/-- Another unrecognized character belongs to what has been begun. -/
theorem extend (begun : Begun begun? start run offset) {character : Char}
    (isGarbage : TokenKind.ofChar character = .garbage) :
    Begun (some (begun?.getD offset)) start (run ++ [character])
      (offset + character.utf8Size) where
  begun_eq := by
    rw [begun.begun_eq, begun.offset_eq]
    by_cases isNil : run = [] <;> simp [isNil]
  garbage := by
    intro other otherMem
    rcases List.mem_append.mp otherMem with runMem | isLast
    · exact begun.garbage other runMem
    · rw [List.mem_singleton.mp isLast, isGarbage]
  offset_eq := by
    rw [begun.offset_eq, utf8Length_append, utf8Length_cons, utf8Length_nil, Nat.add_zero,
      Nat.add_assoc]

/-- What has been begun is a token of its own in front of a character of another class. -/
theorem closeRun_append (begun : Begun begun? start run offset) (rest : List Char)
    (ends : ∀ character ∈ rest.head?, TokenKind.ofChar character ≠ .garbage) :
    Piece.closeRun begun? offset ++ (Token.scanFrom offset rest).map Token.piece =
      (Token.scanFrom start (run ++ rest)).map Token.piece := by
  obtain ⟨rfl, garbage, rfl⟩ := begun
  by_cases isNil : run = []
  · subst isNil
    rfl
  · have uniform : (⟨.garbage, start, run⟩ : Token).Uniform :=
      ⟨garbage, isNil, by simp [TokenKind.formsRuns]⟩
    have scan_eq := Token.scanFrom_append uniform fun character isHead =>
      ⟨nofun, fun both => ends character isHead both.2⟩
    rw [if_neg isNil, scan_eq]
    rfl

end Begun

/-- Gathering what is recognized, behind what has been begun, comes to the tokens of both. -/
theorem Recognizes.gather_eq {offset : Nat} {characters : List Char} {items : List Recognized}
    (recognizes : Recognizes offset characters items) {begun? : Option Nat} {start : Nat}
    {run : List Char} (begun : Begun begun? start run offset) {size : Nat}
    (size_eq : size = offset + utf8Length characters) :
    Piece.gather size begun? items =
      (Token.scanFrom start (run ++ characters)).map Token.piece := by
  -- What has been begun stays open in the induction: only a match or the end of the text closes it.
  induction recognizes generalizing begun? start run with
  | done offset =>
      have closed := begun.closeRun_append [] (by simp)
      rw [← closed, Piece.gather, size_eq]
      exact (List.append_nil _).symm
  | @longest offset kind text rest items isMatch noneLonger behind ih =>
      rw [utf8Length_append, ← Nat.add_assoc] at size_eq
      have ends : ∀ character ∈ (text ++ rest).head?,
          TokenKind.ofChar character ≠ .garbage := by
        intro character isHead
        rw [List.head?_append_of_ne_nil _ isMatch.ne_nil] at isHead
        rw [isMatch.ofChar_eq character (List.mem_of_mem_head? isHead)]
        exact isMatch.ne_garbage
      have token_eq := Token.scanFrom_append (isMatch.uniform offset)
        (isMatch.apart_of_noneLonger noneLonger)
      rw [← begun.closeRun_append _ ends, token_eq, List.map_cons, Piece.gather,
        ih (.nothing _) size_eq]
      rfl
  | @unknown offset character rest items unmatched behind ih =>
      rw [utf8Length_cons, ← Nat.add_assoc] at size_eq
      have extended := begun.extend (TokenKind.unmatched_iff.mp unmatched)
      rw [Piece.gather, ih extended size_eq, List.append_assoc, List.singleton_append]

/-! ## The pieces and the tokens of a text -/

/-- Whatever a recognizer hands out for a text, the pieces gathered from it are those of its
tokens. -/
theorem Recognizes.gather_toList {source : String} {items : List Recognized}
    (recognizes : Recognizes 0 source.toList items) :
    Piece.gather source.utf8ByteSize none items =
      (Token.scanFrom 0 source.toList).map Token.piece := by
  have size_eq : source.utf8ByteSize = 0 + utf8Length source.toList := by
    rw [Nat.zero_add, utf8ByteSize_eq]
  exact recognizes.gather_eq (.nothing 0) size_eq

/-- The pieces of a text are those of its tokens. -/
theorem Piece.lex_eq (source : String) :
    lex source = (Token.scanFrom 0 source.toList).map Token.piece :=
  (recognizes_ofChars 0 source.toList).gather_toList

/-- The tokens of a text are made of its characters from the last to the first. -/
theorem Token.scan_eq (source : String) : scan source = scanFrom 0 source.toList := by
  rw [scan, Piece.lex_eq, List.map_map, List.map_congr_left, List.map_id]
  intro token tokenMem
  obtain ⟨before, after, source_eq, start_eq⟩ := exists_eq_append_of_mem_scanFrom tokenMem
  have text_eq := extract_utf8Length source_eq
  rw [← start_eq] at text_eq
  exact congrArg (Token.mk token.kind token.start) text_eq

end ByteSignature
