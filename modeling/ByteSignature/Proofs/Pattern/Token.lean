import ByteSignature.Proofs.Pattern.LongestMatch

/-!
# Tokens and characters

Every token holds characters of its own class, and one of them unless the class forms
runs.  So the visible tokens of a text are its visible characters one by one, unless
some character stands outside the pattern alphabet.
-/

namespace ByteSignature

namespace Token

/-- The token is the single given character. -/
def IsCharacter (token : Token) (character : Char) : Prop :=
  token.kind = TokenKind.ofChar character ∧ token.text = [character]

/-- A visible token that is not garbage is a single character. -/
theorem Uniform.isCharacter {token : Token} (uniform : token.Uniform)
    (notBlank : token.kind ≠ .blank) (notGarbage : token.kind ≠ .garbage) :
    ∃ character, token.IsCharacter character := by
  rcases uniform with ⟨sameKind, _, single⟩
  have noRuns := TokenKind.formsRuns_eq_false_iff.mpr ⟨notBlank, notGarbage⟩
  rcases List.length_eq_one_iff.mp (single noRuns) with ⟨character, text⟩
  exact ⟨character, (sameKind character (by simp [text])).symm, text⟩

theorem uniform_of_mem_scan {source : String} {token : Token} (tokenMem : token ∈ scan source) :
    token.Uniform := by
  rw [scan_eq] at tokenMem
  exact uniform_of_mem_scanFrom token tokenMem

theorem mem_scan_of_mem_scanVisible {source : String} {token : Token}
    (tokenMem : token ∈ scanVisible source) : token ∈ scan source :=
  (List.mem_filter.mp tokenMem).1

theorem kind_ne_blank_of_mem_scanVisible {source : String} {token : Token}
    (tokenMem : token ∈ scanVisible source) : token.kind ≠ .blank := by
  have visible := (List.mem_filter.mp tokenMem).2
  rintro isBlank
  simp [isBlank, TokenKind.isBlank] at visible

/-! ## Visible characters -/

/-- Dropping the blank tokens drops the blank characters. -/
theorem flatMap_text_filter {tokens : List Token}
    (uniform : ∀ token ∈ tokens, token.Uniform) :
    (tokens.filter fun token => !token.kind.isBlank).flatMap text =
      (tokens.flatMap text).filter fun character => !Pattern.isBlank character := by
  induction tokens with
  | nil => rfl
  | cons token rest ih =>
      have restEq := ih fun other otherMem => uniform other (List.mem_cons_of_mem _ otherMem)
      have sameClass : ∀ character ∈ token.text,
          Pattern.isBlank character = token.kind.isBlank := by
        intro character characterMem
        have kind := (uniform token List.mem_cons_self).1 character characterMem
        rw [Bool.eq_iff_iff, ← TokenKind.ofChar_eq_blank_iff, kind, TokenKind.isBlank,
          beq_iff_eq]
      rw [List.flatMap_cons, List.filter_append, ← restEq]
      by_cases blank : token.kind.isBlank = true
      · have dropped : token.text.filter (fun character => !Pattern.isBlank character) = [] :=
          List.filter_eq_nil_iff.mpr fun character characterMem => by
            simp [sameClass character characterMem, blank]
        rw [dropped, List.nil_append, List.filter_cons_of_neg (by simp [blank])]
      · have kept : token.text.filter (fun character => !Pattern.isBlank character) =
            token.text :=
          List.filter_eq_self.mpr fun character characterMem => by
            simp [sameClass character characterMem, blank]
        rw [kept, List.filter_cons_of_pos (by simp [blank]), List.flatMap_cons]

/-- The characters of the visible tokens are the visible characters. -/
theorem flatMap_text_scanVisible (source : String) :
    (scanVisible source).flatMap text = Pattern.visible source := by
  rw [scanVisible, scan_eq, flatMap_text_filter uniform_of_mem_scanFrom, flatMap_text_scanFrom]
  rfl

theorem forall₂_isCharacter_flatMap {tokens : List Token}
    (single : ∀ token ∈ tokens, ∃ character, token.IsCharacter character) :
    List.Forall₂ IsCharacter tokens (tokens.flatMap text) := by
  induction tokens with
  | nil => exact .nil
  | cons token rest ih =>
      obtain ⟨character, isCharacter⟩ := single token List.mem_cons_self
      rw [List.flatMap_cons, isCharacter.2]
      exact .cons isCharacter (ih fun other otherMem =>
        single other (List.mem_cons_of_mem _ otherMem))

theorem exists_isCharacter_of_mem_scanVisible {source : String} {token : Token}
    (tokenMem : token ∈ scanVisible source) (notGarbage : token.kind ≠ .garbage) :
    ∃ character, token.IsCharacter character := by
  exact (uniform_of_mem_scan (mem_scan_of_mem_scanVisible tokenMem)).isCharacter
    (kind_ne_blank_of_mem_scanVisible tokenMem) notGarbage

/-- Visible tokens without garbage are the visible characters one by one. -/
theorem forall₂_isCharacter_scanVisible {source : String}
    (noGarbage : ∀ token ∈ scanVisible source, token.kind ≠ .garbage) :
    List.Forall₂ IsCharacter (scanVisible source) (Pattern.visible source) := by
  rw [← flatMap_text_scanVisible]
  apply forall₂_isCharacter_flatMap
  intro token tokenMem
  exact exists_isCharacter_of_mem_scanVisible tokenMem (noGarbage token tokenMem)

theorem isCharacter_of_openParen {source : String} {token : Token}
    (tokenMem : token ∈ scanVisible source) (opens : token.kind = .openParen) :
    token.IsCharacter '(' := by
  obtain ⟨character, isCharacter⟩ :=
    exists_isCharacter_of_mem_scanVisible tokenMem (by simp [opens])
  obtain rfl := TokenKind.ofChar_eq_openParen_iff.mp (isCharacter.1.symm.trans opens)
  exact isCharacter

theorem isCharacter_of_closeParen {source : String} {token : Token}
    (tokenMem : token ∈ scanVisible source) (closes : token.kind = .closeParen) :
    token.IsCharacter ')' := by
  obtain ⟨character, isCharacter⟩ :=
    exists_isCharacter_of_mem_scanVisible tokenMem (by simp [closes])
  obtain rfl := TokenKind.ofChar_eq_closeParen_iff.mp (isCharacter.1.symm.trans closes)
  exact isCharacter

/-- A text without characters outside the alphabet has no garbage. -/
theorem kind_ne_garbage_of_visible {source : String}
    (clean : ∀ character ∈ Pattern.visible source, TokenKind.ofChar character ≠ .garbage) :
    ∀ token ∈ scanVisible source, token.kind ≠ .garbage := by
  intro token tokenMem garbage
  obtain ⟨sameKind, nonempty, _⟩ := uniform_of_mem_scan (mem_scan_of_mem_scanVisible tokenMem)
  obtain ⟨character, characterMem⟩ := List.exists_mem_of_ne_nil _ nonempty
  apply clean character
  · rw [← flatMap_text_scanVisible]
    exact List.mem_flatMap.mpr ⟨token, tokenMem, characterMem⟩
  · rw [sameKind character characterMem, garbage]

end Token

namespace Pattern

/-- The grammar takes its characters one by one. -/
theorem Spells.formsRuns_eq_false {part : Part} {text : List Char} {pattern : Pattern}
    (spells : Spells part text pattern) :
    ∀ character ∈ text, (TokenKind.ofChar character).formsRuns = false := by
  induction spells with
  | symbol alphanumeric =>
      intro character characterMem
      rw [List.mem_singleton.mp characterMem, TokenKind.ofChar_eq_symbol_iff.mpr alphanumeric]
      rfl
  | group inner ih =>
      intro character characterMem
      rcases List.mem_cons.mp characterMem with rfl | characterMem
      · rfl
      · rcases List.mem_append.mp characterMem with characterMem | characterMem
        · exact ih character characterMem
        · rw [List.mem_singleton.mp characterMem]
          rfl
  | single operand ih => exact ih
  | repeated repetition operand ih =>
      intro character characterMem
      rcases List.mem_append.mp characterMem with characterMem | characterMem
      · exact ih character characterMem
      · rw [List.mem_singleton.mp characterMem]
        cases repetition <;> rfl
  | first term ih => exact ih
  | joined join expression term ihBefore ih =>
      intro character characterMem
      rcases List.mem_append.mp characterMem with characterMem | characterMem
      · rcases List.mem_append.mp characterMem with characterMem | characterMem
        · exact ihBefore character characterMem
        · cases join with
          | concat => cases characterMem
          | alternate =>
              rw [List.mem_singleton.mp characterMem]
              rfl
      · exact ih character characterMem

theorem Spells.kind_ne_garbage {part : Part} {text : List Char} {pattern : Pattern}
    (spells : Spells part text pattern) :
    ∀ character ∈ text, TokenKind.ofChar character ≠ .garbage := by
  intro character characterMem garbage
  have noRuns := spells.formsRuns_eq_false character characterMem
  rw [garbage] at noRuns
  cases noRuns

/-- The tokens of an expression are its characters one by one. -/
theorem Spells.forall₂_isCharacter {part : Part} {source : String} {pattern : Pattern}
    (spells : Spells part (visible source) pattern) :
    List.Forall₂ Token.IsCharacter (Token.scanVisible source) (visible source) :=
  Token.forall₂_isCharacter_scanVisible
    (Token.kind_ne_garbage_of_visible spells.kind_ne_garbage)

end Pattern

end ByteSignature
