import ByteSignature.Proofs.Pattern.Position

/-!
# The only tiling of a text

The tokens of a text tile it: their ranges are not empty, follow each other from the beginning
to the end, and begin and end where characters meet.  Letters, digits and operators have a range
of their own, blanks and characters outside the alphabet share one with their neighbours of the
same class, and a run is never cut.  No other ranges do all this.
-/

namespace ByteSignature

open Text

namespace Piece

/-- The range holds the characters in the text. -/
def Holds (piece : Piece) (source : String) (text : List Char) : Prop :=
  ∃ before after, source.toList = before ++ text ++ after ∧
    piece.start = utf8Length before ∧ piece.stop = utf8Length (before ++ text)

/-- The ranges follow each other without gaps from one offset to another. -/
def Contiguous : Nat → List Piece → Nat → Prop
  | offset, [], stop => offset = stop
  | offset, piece :: rest, stop => piece.start = offset ∧ Contiguous piece.stop rest stop

/-- The piece can be cut out of the text: it is not empty, it begins and ends where characters
meet, all characters in it are of its class, and it is one byte unless these are blanks or
characters outside the alphabet. -/
structure Fits (piece : Piece) (source : String) : Prop where
  start_lt_stop : piece.start < piece.stop
  isValid_start : String.Pos.Raw.IsValid source ⟨piece.start⟩
  isValid_stop : String.Pos.Raw.IsValid source ⟨piece.stop⟩
  takes : ∀ text, piece.Holds source text → ∀ character ∈ text, piece.kind.Takes character
  single : piece.kind ≠ .blank → piece.kind ≠ .garbage → piece.stop = piece.start + 1

/-- The pieces cut the whole text, and no run is cut in two. -/
structure Tile (pieces : List Piece) (source : String) : Prop where
  fits : ∀ piece ∈ pieces, piece.Fits source
  contiguous : Contiguous 0 pieces source.utf8ByteSize
  longest : pieces.IsChain fun first second => first.kind.Apart second.kind

end Piece

/-! ## What a range holds -/

namespace Piece

variable {source : String} {piece : Piece} {text text2 : List Char}

theorem Holds.text_eq (holds : piece.Holds source text) (holds2 : piece.Holds source text2) :
    text = text2 := by
  obtain ⟨before, after, source_eq, start_eq, stop_eq⟩ := holds
  obtain ⟨before2, after2, source_eq2, start_eq2, stop_eq2⟩ := holds2
  have isFront : before <+: source.toList :=
    ⟨text ++ after, (List.append_assoc _ _ _).symm.trans source_eq.symm⟩
  have isFront2 : before2 <+: source.toList :=
    ⟨text2 ++ after2, (List.append_assoc _ _ _).symm.trans source_eq2.symm⟩
  obtain rfl := eq_of_utf8Length_eq isFront isFront2 (start_eq.symm.trans start_eq2)
  have whole_eq := eq_of_utf8Length_eq ⟨after, source_eq.symm⟩ ⟨after2, source_eq2.symm⟩
    (stop_eq.symm.trans stop_eq2)
  exact List.append_cancel_left whole_eq

theorem holds_of_mem_scan {token : Token} (tokenMem : token ∈ Token.scan source) :
    token.piece.Holds source token.text := by
  obtain ⟨before, after, source_eq, start_eq⟩ := Token.exists_toList_eq_append tokenMem
  refine ⟨before, after, source_eq, start_eq, ?_⟩
  rw [utf8Length_append, ← start_eq]
  rfl

theorem fits_of_mem_scan {token : Token} (tokenMem : token ∈ Token.scan source) :
    token.piece.Fits source where
  start_lt_stop := Token.start_lt_stop tokenMem
  isValid_start := Token.isValid_start tokenMem
  isValid_stop := Token.isValid_stop tokenMem
  takes text holds character characterMem := by
    rw [holds.text_eq (holds_of_mem_scan tokenMem)] at characterMem
    exact TokenKind.takes_iff.mpr
      ((Token.uniform_of_mem_scan tokenMem).1 character characterMem)
  single notBlank notGarbage := by
    have alone := TokenKind.formsRuns_eq_false_iff.mpr ⟨notBlank, notGarbage⟩
    obtain ⟨sameKind, _, single⟩ := Token.uniform_of_mem_scan tokenMem
    obtain ⟨character, text_eq⟩ := List.length_eq_one_iff.mp (single alone)
    have kind_eq := sameKind character (by simp [text_eq])
    have size_eq : character.utf8Size = 1 := by
      apply TokenKind.utf8Size_of_formsRuns_eq_false
      rw [kind_eq]
      exact alone
    simp [Token.piece, Token.stop, text_eq, size_eq]

theorem Holds.stop_eq (holds : piece.Holds source text) :
    piece.stop = piece.start + utf8Length text := by
  obtain ⟨before, after, -, start_eq, stop_eq⟩ := holds
  rw [stop_eq, start_eq, utf8Length_append]

/-- A piece that begins behind some characters holds characters that follow. -/
theorem Fits.exists_holds (fits : piece.Fits source) {front rest : List Char}
    (source_eq : source.toList = front ++ rest) (start_eq : piece.start = utf8Length front) :
    ∃ text after, rest = text ++ after ∧ piece.Holds source text := by
  obtain ⟨whole, behind, whole_eq, stop_eq⟩ :=
    String.Pos.Raw.isValid_iff_exists_append.mp fits.isValid_stop
  have stop_eq : piece.stop = utf8Length whole.toList := by
    rw [← utf8ByteSize_eq]
    exact congrArg String.Pos.Raw.byteIdx stop_eq
  have isWhole : whole.toList <+: source.toList := by
    rw [whole_eq, String.toList_append]
    exact List.prefix_append _ _
  have isFront : front <+: source.toList := ⟨rest, source_eq.symm⟩
  have shorter : utf8Length front ≤ utf8Length whole.toList := by
    rw [← start_eq, ← stop_eq]
    exact fits.start_lt_stop.le
  obtain ⟨text, text_eq⟩ := prefix_of_utf8Length_le isFront isWhole shorter
  obtain ⟨after, after_eq⟩ := isWhole
  rw [← text_eq] at after_eq stop_eq
  refine ⟨text, after, ?_, front, after, after_eq.symm, start_eq, stop_eq⟩
  rw [source_eq, List.append_assoc] at after_eq
  exact (List.append_cancel_left after_eq).symm

/-- What a fitting piece holds makes a token. -/
theorem Fits.uniform (fits : piece.Fits source) (holds : piece.Holds source text) :
    (⟨piece.kind, piece.start, text⟩ : Token).Uniform := by
  refine ⟨?sameKind, ?ne_nil, ?single⟩
  case sameKind =>
    intro character characterMem
    exact TokenKind.takes_iff.mp (fits.takes text holds character characterMem)
  case ne_nil =>
    rintro rfl
    exact absurd holds.stop_eq fits.start_lt_stop.ne'
  case single =>
    intro alone
    obtain ⟨notBlank, notGarbage⟩ := TokenKind.formsRuns_eq_false_iff.mp alone
    have size_eq := fits.single notBlank notGarbage
    rw [holds.stop_eq, Nat.add_left_cancel_iff] at size_eq
    exact length_eq_one_of_utf8Length size_eq

/-- A piece that begins behind some characters is a token of characters that follow. -/
theorem Fits.exists_token (fits : piece.Fits source) {front rest : List Char}
    (source_eq : source.toList = front ++ rest) (start_eq : piece.start = utf8Length front) :
    ∃ (token : Token) (after : List Char), rest = token.text ++ after ∧ token.Uniform ∧
      token.piece = piece := by
  obtain ⟨text, after, rest_eq, holds⟩ := fits.exists_holds source_eq start_eq
  refine ⟨⟨piece.kind, piece.start, text⟩, after, rest_eq, fits.uniform holds, ?_⟩
  rw [Token.piece, Token.stop, ← holds.stop_eq]

/-! ## The tokens of a text and no other pieces -/

theorem contiguous_of_tile {offset : Nat} {tokens : List Token} (tile : Token.Tile offset tokens) :
    Contiguous offset (tokens.map Token.piece)
      (offset + utf8Length (tokens.flatMap Token.text)) := by
  induction tokens generalizing offset with
  | nil => rfl
  | cons token tokens ih =>
      obtain ⟨rfl, behind⟩ := tile
      refine ⟨rfl, ?_⟩
      rw [List.flatMap_cons, utf8Length_append, ← Nat.add_assoc]
      exact ih behind

theorem tile_lex (source : String) : Tile (lex source) source where
  fits piece pieceMem := by
    rw [lex_eq, ← Token.scan_eq] at pieceMem
    obtain ⟨token, tokenMem, rfl⟩ := List.mem_map.mp pieceMem
    exact fits_of_mem_scan tokenMem
  contiguous := by
    rw [lex_eq]
    have contiguous := contiguous_of_tile (Token.tile_scanFrom 0 source.toList)
    rwa [Token.flatMap_text_scanFrom, Nat.zero_add, ← utf8ByteSize_eq] at contiguous
  longest := by
    rw [lex_eq, List.isChain_map]
    exact Token.isChain_scanFrom 0 source.toList

/-- Pieces that tile what follows some characters are the tokens of what follows. -/
theorem eq_map_scanFrom {pieces : List Piece} {front rest : List Char}
    (source_eq : source.toList = front ++ rest) (fits : ∀ piece ∈ pieces, piece.Fits source)
    (contiguous : Contiguous (utf8Length front) pieces source.utf8ByteSize)
    (longest : pieces.IsChain fun first second => first.kind.Apart second.kind) :
    pieces = (Token.scanFrom (utf8Length front) rest).map Token.piece := by
  -- By induction the later pieces are tokens, so the next one tells the character that the first
  -- piece ends in front of.
  induction pieces generalizing front rest with
  | nil =>
      have size_eq : utf8Length front = source.utf8ByteSize := contiguous
      rw [utf8ByteSize_eq, source_eq, utf8Length_append] at size_eq
      cases rest with
      | nil => rfl
      | cons character rest =>
          have pos := utf8Length_pos (List.cons_ne_nil character rest)
          omega
  | cons piece pieces ih =>
      obtain ⟨start_eq, behind⟩ := contiguous
      rw [List.forall_mem_cons] at fits
      obtain ⟨token, after, rfl, uniform, rfl⟩ := fits.1.exists_token source_eq start_eq
      have stop_eq : token.stop = utf8Length (front ++ token.text) := by
        rw [utf8Length_append, ← start_eq]
        rfl
      have later := ih (source_eq.trans (List.append_assoc _ _ _).symm) fits.2
        (stop_eq ▸ behind) longest.tail
      rw [← stop_eq] at later
      have ends : ∀ character ∈ after.head?, token.kind.Apart (TokenKind.ofChar character) := by
        intro character isHead
        obtain ⟨after2, rfl⟩ := List.head?_eq_some_iff.mp isHead
        obtain ⟨next, _, scan_eq, kind_eq⟩ :=
          Token.exists_scanFrom_cons token.stop character after2
        rw [later, scan_eq, List.map_cons] at longest
        exact kind_eq ▸ longest.rel
      rw [later, ← start_eq, ← List.map_cons]
      exact congrArg _ (Token.scanFrom_append uniform ends).symm

/-- Pieces tile a text exactly when they are those that the lexer cuts. -/
theorem tile_iff {pieces : List Piece} : Tile pieces source ↔ pieces = lex source := by
  constructor
  · intro tile
    rw [lex_eq]
    exact eq_map_scanFrom (List.nil_append _).symm tile.fits tile.contiguous tile.longest
  · rintro rfl
    exact tile_lex source

end Piece

/-- The lexer goes over the longest matches and the unrecognized characters of the text.  What it
gathers from any that a recognizer hands out is the same, and these pieces are the only ones that
tile the text. -/
theorem tile_iff_eq_lex (source : String) :
    Recognizes 0 source.toList (Recognized.ofChars 0 source.toList) ∧
      ∀ items, Recognizes 0 source.toList items →
        Piece.gather source.utf8ByteSize none items = Piece.lex source ∧
          ∀ pieces, Piece.Tile pieces source ↔
            pieces = Piece.gather source.utf8ByteSize none items := by
  refine ⟨recognizes_ofChars 0 source.toList, ?_⟩
  intro items recognizes
  have gathered : Piece.gather source.utf8ByteSize none items = Piece.lex source := by
    rw [Piece.lex_eq, recognizes.gather_toList]
  refine ⟨gathered, ?_⟩
  intro pieces
  rw [gathered, Piece.tile_iff]

/-- Unrecognized characters of one and of two bytes, a run of blanks, and a run of one character
at the end. -/
theorem tile_iff_eq_lex_mixed :
    Recognizes 0 "a.é \tb$".toList [⟨some .symbol, 0, 1⟩, ⟨none, 1, 2⟩, ⟨none, 2, 4⟩,
        ⟨some .blank, 4, 6⟩, ⟨some .symbol, 6, 7⟩, ⟨none, 7, 8⟩] ∧
      Piece.Tile [⟨.symbol, 0, 1⟩, ⟨.garbage, 1, 4⟩, ⟨.blank, 4, 6⟩, ⟨.symbol, 6, 7⟩,
        ⟨.garbage, 7, 8⟩] "a.é \tb$" := by
  have symbolMatch (character : Char) (alphanumeric : character.isAlphanum = true) :
      TokenKind.symbol.Matches [character] :=
    ⟨List.cons_ne_nil _ _, List.forall_mem_singleton.mpr alphanumeric, fun _ => rfl⟩
  have blankMatch : TokenKind.blank.Matches [' ', '\t'] :=
    ⟨List.cons_ne_nil _ _, List.forall_mem_cons.mpr
      ⟨.inl rfl, List.forall_mem_singleton.mpr (.inr (.inl rfl))⟩,
      fun notBlank => absurd rfl notBlank⟩
  have ends {character : Char} {kind : TokenKind} {rest : List Char}
      (apart : kind.Apart (TokenKind.ofChar character)) :
      ∀ next ∈ (character :: rest).head?, kind.Apart (TokenKind.ofChar next) := by
    intro next isHead
    obtain rfl := Option.some.inj isHead
    exact apart
  have recognizes : Recognizes 0 ['a', '.', 'é', ' ', '\t', 'b', '$']
      [⟨some .symbol, 0, 1⟩, ⟨none, 1, 2⟩, ⟨none, 2, 4⟩, ⟨some .blank, 4, 6⟩,
        ⟨some .symbol, 6, 7⟩, ⟨none, 7, 8⟩] := by
    have a := symbolMatch 'a' rfl
    have b := symbolMatch 'b' rfl
    refine @Recognizes.longest 0 .symbol ['a'] _ _ a (a.noneLonger_of_apart (ends (by decide))) ?_
    refine .unknown (TokenKind.unmatched_iff.mpr rfl) ?_
    refine .unknown (TokenKind.unmatched_iff.mpr rfl) ?_
    refine @Recognizes.longest 4 .blank [' ', '\t'] _ _ blankMatch
      (blankMatch.noneLonger_of_apart (ends (by decide))) ?_
    refine @Recognizes.longest 6 .symbol ['b'] _ _ b (b.noneLonger_of_apart (ends (by decide))) ?_
    exact .unknown (TokenKind.unmatched_iff.mpr rfl) (.done _)
  have characters : "a.é \tb$".toList = ['a', '.', 'é', ' ', '\t', 'b', '$'] := rfl
  rw [← characters] at recognizes
  obtain ⟨-, unique⟩ := tile_iff_eq_lex "a.é \tb$"
  exact ⟨recognizes, ((unique _ recognizes).2 _).mpr rfl⟩

end ByteSignature
