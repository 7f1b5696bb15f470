import ByteSignature.Proofs.Pattern.Kind
import ByteSignature.Proofs.Text.Offset
import Mathlib.Data.List.Chain

/-!
# Tokens by characters

The tokens of some characters can also be had from the last character to the first: each
character is put in front of the tokens behind it, and into the first of them where both are
blank or both are outside the pattern alphabet.  Made in this way, tokens hold characters of
their own class, follow each other without gaps, and no run is cut in two.
-/

namespace ByteSignature.Token

open Text

/-- The range and the class of a token. -/
def piece (token : Token) : Piece :=
  ⟨token.kind, token.start, token.stop⟩

/-- Put a character in front of some tokens: into the first one where the class forms runs and
both are of that class, and as a token of its own otherwise. -/
def prepend (start : Nat) (character : Char) (tokens : List Token) : List Token :=
  let kind := TokenKind.ofChar character
  match tokens with
  | next :: later =>
      if kind.formsRuns && next.kind == kind then
        { kind, start, text := character :: next.text } :: later
      else
        { kind, start, text := [character] } :: tokens
  | [] => [{ kind, start, text := [character] }]

/-- The tokens of some characters, the first of which stands at byte offset `start`. -/
def scanFrom : (start : Nat) → List Char → List Token
  | _, [] => []
  | start, character :: rest =>
      prepend start character (scanFrom (start + character.utf8Size) rest)

theorem text_prepend (start : Nat) (character : Char) (tokens : List Token) :
    (prepend start character tokens).flatMap text =
      character :: tokens.flatMap text := by
  cases tokens with
  | nil => rfl
  | cons next later =>
      simp only [prepend]
      split <;> simp

/-- Tokens lose nothing: their texts in order are the characters. -/
theorem flatMap_text_scanFrom (start : Nat) (characters : List Char) :
    (scanFrom start characters).flatMap text = characters := by
  induction characters generalizing start with
  | nil => rfl
  | cons character rest ih => simp [scanFrom, text_prepend, ih]

/-! ## Runs -/

/-- All characters of the token are of its class, and there is one of them unless the
class forms runs. -/
def Uniform (token : Token) : Prop :=
  (∀ character ∈ token.text, TokenKind.ofChar character = token.kind) ∧ token.text ≠ [] ∧
    (token.kind.formsRuns = false → token.text.length = 1)

/-- A character comes to stand alone, or in front of a run of its own class. -/
theorem prepend_cases (start : Nat) (character : Char) (tokens : List Token) :
    prepend start character tokens =
        ⟨TokenKind.ofChar character, start, [character]⟩ :: tokens ∨
      ∃ next later, tokens = next :: later ∧ next.kind = TokenKind.ofChar character ∧
        (TokenKind.ofChar character).formsRuns = true ∧
        prepend start character tokens =
          ⟨TokenKind.ofChar character, start, character :: next.text⟩ :: later := by
  cases tokens with
  | nil => exact .inl rfl
  | cons next later =>
      simp only [prepend]
      split
      · rename_i merges
        rcases Bool.and_eq_true_iff.mp merges with ⟨formsRuns, sameKind⟩
        exact .inr ⟨next, later, rfl, eq_of_beq sameKind, formsRuns, rfl⟩
      · exact .inl rfl

theorem uniform_of_mem_prepend {start : Nat} {character : Char} {tokens : List Token}
    (uniform : ∀ token ∈ tokens, token.Uniform) :
    ∀ token ∈ prepend start character tokens, token.Uniform := by
  rcases prepend_cases start character tokens with
    prepend_eq | ⟨next, later, rfl, sameKind, formsRuns, prepend_eq⟩
  · rw [prepend_eq]
    intro token tokenMem
    rcases List.mem_cons.mp tokenMem with rfl | tokenMem
    · exact ⟨by simp, by simp, fun _ => rfl⟩
    · exact uniform token tokenMem
  · have nextUniform := uniform next List.mem_cons_self
    rw [prepend_eq]
    intro token tokenMem
    rcases List.mem_cons.mp tokenMem with rfl | laterMem
    · refine ⟨?_, by simp, ?_⟩
      · intro other otherMem
        rcases List.mem_cons.mp otherMem with rfl | otherMem
        · rfl
        · rw [nextUniform.1 other otherMem, sameKind]
      · intro noRuns
        rw [formsRuns] at noRuns
        contradiction
    · exact uniform token (List.mem_cons_of_mem _ laterMem)

theorem uniform_of_mem_scanFrom {start : Nat} {characters : List Char} :
    ∀ token ∈ scanFrom start characters, token.Uniform := by
  induction characters generalizing start with
  | nil => exact List.forall_mem_nil _
  | cons character rest ih => exact uniform_of_mem_prepend ih

/-- The first token is of the class of the first character. -/
theorem exists_scanFrom_cons (start : Nat) (character : Char) (rest : List Char) :
    ∃ token later, scanFrom start (character :: rest) = token :: later ∧
      token.kind = TokenKind.ofChar character := by
  rw [scanFrom]
  rcases prepend_cases start character (scanFrom (start + character.utf8Size) rest) with
    prepend_eq | ⟨next, later, _, _, _, prepend_eq⟩
  · exact ⟨_, _, prepend_eq, rfl⟩
  · exact ⟨_, _, prepend_eq, rfl⟩

/-- Characters that a token may hold are a token of their own in front of a character that does
not belong to their run. -/
theorem scanFrom_append {token : Token} (uniform : token.Uniform) {rest : List Char}
    (ends : ∀ character ∈ rest.head?, token.kind.Apart (TokenKind.ofChar character)) :
    scanFrom token.start (token.text ++ rest) = token :: scanFrom token.stop rest := by
  rcases token with ⟨kind, start, text⟩
  obtain ⟨sameKind, ne_nil, single⟩ := uniform
  dsimp only at sameKind ne_nil single ends ⊢
  induction text generalizing start with
  | nil => exact absurd rfl ne_nil
  | cons character text ih =>
      rw [List.forall_mem_cons] at sameKind
      obtain ⟨rfl, textKind⟩ := sameKind
      cases text with
      | nil =>
          rw [List.singleton_append, scanFrom, stop, utf8Length_cons, utf8Length_nil]
          cases rest with
          | nil => rfl
          | cons next rest =>
              obtain ⟨second, later, scan_eq, kind_eq⟩ :=
                exists_scanFrom_cons (start + character.utf8Size) next rest
              have apart : ¬ ((TokenKind.ofChar character).formsRuns &&
                  second.kind == TokenKind.ofChar character) = true := by
                intro merges
                obtain ⟨formsRuns, same⟩ := Bool.and_eq_true_iff.mp merges
                rw [TokenKind.apart_iff.mp (ends next rfl) ((eq_of_beq same).symm.trans kind_eq)]
                  at formsRuns
                cases formsRuns
              rw [Nat.add_zero, scan_eq, prepend, if_neg apart]
      | cons second text =>
          have formsRuns : (TokenKind.ofChar character).formsRuns = true := by
            by_contra noRuns
            have length_eq := single (Bool.eq_false_iff.mpr noRuns)
            simp at length_eq
          have tail := ih (start + character.utf8Size) textKind (List.cons_ne_nil _ _)
            (fun noRuns => absurd formsRuns (by simp [noRuns]))
          have stop_eq (kind : TokenKind) :
              stop ⟨kind, start + character.utf8Size, second :: text⟩ =
                stop ⟨kind, start, character :: second :: text⟩ := by
            simp [stop, Nat.add_assoc]
          rw [List.cons_append, scanFrom, tail, prepend, if_pos (by simp [formsRuns]), stop_eq]

/-- Tokens are put apart from the first one, or into it. -/
theorem isChain_prepend {start : Nat} {character : Char} {tokens : List Token}
    (chain : tokens.IsChain fun first second => first.kind.Apart second.kind) :
    (prepend start character tokens).IsChain fun first second =>
      first.kind.Apart second.kind := by
  cases tokens with
  | nil => exact .singleton _
  | cons next later =>
      rw [prepend]
      split
      · rename_i merges
        have kind_eq := eq_of_beq (Bool.and_eq_true_iff.mp merges).2
        cases chain with
        | singleton => exact .singleton _
        | cons_cons adjacent behind => exact .cons_cons (kind_eq ▸ adjacent) behind
      · rename_i apart
        refine .cons_cons (TokenKind.apart_iff.mpr ?_) chain
        intro kind_eq
        dsimp only at kind_eq ⊢
        by_contra runs
        exact apart (by simpa [kind_eq] using runs)

theorem isChain_scanFrom (start : Nat) (characters : List Char) :
    (scanFrom start characters).IsChain fun first second => first.kind.Apart second.kind := by
  induction characters generalizing start with
  | nil => exact .nil
  | cons character rest ih => exact isChain_prepend (ih _)

/-! ## Offsets -/

/-- The tokens follow each other without gaps from an offset on. -/
def Tile : Nat → List Token → Prop
  | _, [] => True
  | offset, token :: rest => token.start = offset ∧ Tile token.stop rest

theorem tile_prepend {offset : Nat} {character : Char} {tokens : List Token}
    (tile : Tile (offset + character.utf8Size) tokens) :
    Tile offset (prepend offset character tokens) := by
  rcases prepend_cases offset character tokens with
    prepend_eq | ⟨next, later, rfl, _, _, prepend_eq⟩
  · rw [prepend_eq]
    exact ⟨rfl, tile⟩
  · obtain ⟨start_eq, laterTile⟩ := tile
    rw [prepend_eq]
    refine ⟨rfl, ?_⟩
    rw [stop, utf8Length_cons, ← Nat.add_assoc, ← start_eq]
    exact laterTile

/-- The tokens of some characters tile them. -/
theorem tile_scanFrom (offset : Nat) (characters : List Char) :
    Tile offset (scanFrom offset characters) := by
  induction characters generalizing offset with
  | nil => trivial
  | cons character rest ih => exact tile_prepend (ih _)

/-- A token stands behind the bytes of those in front of it. -/
theorem Tile.start_eq {offset : Nat} {before after : List Token} {token : Token}
    (tile : Tile offset (before ++ token :: after)) :
    token.start = offset + utf8Length (before.flatMap text) := by
  induction before generalizing offset with
  | nil => exact tile.1
  | cons first before ih =>
      obtain ⟨start_eq, laterTile⟩ := tile
      rw [ih laterTile, List.flatMap_cons, utf8Length_append, stop, start_eq, Nat.add_assoc]

theorem Tile.le_start {offset : Nat} {tokens : List Token} (tile : Tile offset tokens) :
    ∀ token ∈ tokens, offset ≤ token.start := by
  intro token tokenMem
  obtain ⟨before, after, rfl⟩ := List.append_of_mem tokenMem
  rw [tile.start_eq]
  exact Nat.le_add_right _ _

/-- No token begins before those in front of it end. -/
theorem Tile.pairwise {offset : Nat} {tokens : List Token} (tile : Tile offset tokens) :
    tokens.Pairwise fun first second => first.stop ≤ second.start := by
  induction tokens generalizing offset with
  | nil => exact .nil
  | cons token rest ih => exact .cons tile.2.le_start (ih tile.2)

/-- What some characters consist of around a token. -/
theorem exists_eq_append_of_mem_scanFrom {characters : List Char} {token : Token}
    (tokenMem : token ∈ scanFrom 0 characters) :
    ∃ before after, characters = before ++ token.text ++ after ∧
      token.start = utf8Length before := by
  obtain ⟨before, after, tokens_eq⟩ := List.append_of_mem tokenMem
  have texts_eq := flatMap_text_scanFrom 0 characters
  have tile := tile_scanFrom 0 characters
  rw [tokens_eq] at texts_eq tile
  refine ⟨before.flatMap text, after.flatMap text, ?_, ?_⟩
  · rw [← texts_eq, List.flatMap_append, List.flatMap_cons, List.append_assoc]
  · rw [tile.start_eq, Nat.zero_add]

end ByteSignature.Token
