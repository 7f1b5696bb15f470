import ByteSignature.Json.Skip
import ByteSignature.Proofs.Json.Number
import ByteSignature.Proofs.Text.Bytes

/-!
# Laying out a text

A text is a row of tokens with blanks in front of each and behind the last.  Marks and
whole numbers are spelled in one way.  The characters of a key stand for themselves or are
escaped by their code.  However a text is laid out, each reader gets past the tokens that it
is made for and leaves a layout of the others.
-/

namespace ByteSignature.Json

/-! ## Tokens -/

/-- The byte that opens a bracket. -/
def Bracket.opening : Bracket → UInt8
  | list => byteOf '['
  | object => 0x7b

/-- A token of one byte. -/
inductive Mark where
  | opening (bracket : Bracket)
  | closing (bracket : Bracket)
  | comma
  | colon
  deriving DecidableEq, Repr

/-- The byte of a mark. -/
def Mark.byte : Mark → UInt8
  | opening bracket => bracket.opening
  | closing bracket => bracket.close
  | comma => byteOf ','
  | colon => byteOf ':'

/-- What a text is made of, as far as tables need it. -/
inductive Token where
  | mark (mark : Mark)
  | key (name : String)
  | number (value : Nat)
  deriving DecidableEq, Repr

/-- A character that stands for itself in a string. -/
def IsPlain (character : Char) : Prop :=
  character.val ≤ 127 ∧ 0x20 ≤ byteOf character ∧ byteOf character ≠ 0x22 ∧
    byteOf character ≠ 0x5c

instance : DecidablePred IsPlain :=
  fun _ => inferInstanceAs (Decidable (_ ∧ _))

/-- Bytes between quotation marks that spell ASCII characters. -/
inductive Spelling : List Char → List UInt8 → Prop
  | nil : Spelling [] []
  | plain {character : Char} {text : List Char} {bytes : List UInt8} (isPlain : IsPlain character)
      (spelling : Spelling text bytes) : Spelling (character :: text) (byteOf character :: bytes)
  | escape {character : Char} {text : List Char} {bytes digits : List UInt8}
      (ascii : character.val ≤ 127) (four : digits.length = 4)
      (code : hexNumber? digits = some character.toNat) (spelling : Spelling text bytes) :
      Spelling (character :: text) (0x5c :: byteOf 'u' :: digits ++ bytes)

/-- Bytes that spell a token. -/
inductive Token.Spells : Token → List UInt8 → Prop
  | mark (mark : Mark) : Spells (.mark mark) [mark.byte]
  | key {name : String} {bytes : List UInt8} (spelling : Spelling name.toList bytes) :
      Spells (.key name) (0x22 :: bytes ++ [0x22])
  | number (value : Nat) : Spells (.number value) (decimalBytes value)

/-- Bytes that are tokens with blanks around them. -/
inductive Layout : List Token → List UInt8 → Prop
  | nil {blanks : List UInt8} (blank : ∀ byte ∈ blanks, isBlank byte = true) : Layout [] blanks
  | cons {token : Token} {tokens : List Token} {blanks spelled rest : List UInt8}
      (blank : ∀ byte ∈ blanks, isBlank byte = true) (spells : token.Spells spelled)
      (layout : Layout tokens rest) : Layout (token :: tokens) (blanks ++ (spelled ++ rest))

/-! ## Putting layouts together -/

theorem Spelling.of_isPlain {text : List Char} (plain : ∀ character ∈ text, IsPlain character) :
    Spelling text (text.map byteOf) := by
  induction text with
  | nil => exact .nil
  | cons character text ih =>
      obtain ⟨isPlain, others⟩ := List.forall_mem_cons.mp plain
      exact .plain isPlain (ih others)

namespace Layout

variable {token : Token} {tokens behind : List Token} {bytes blanks rest : List UInt8}

theorem blanks_append (blank : ∀ byte ∈ blanks, isBlank byte = true)
    (layout : Layout tokens bytes) : Layout tokens (blanks ++ bytes) := by
  cases layout with
  | nil others => exact .nil (List.forall_mem_append.mpr ⟨blank, others⟩)
  | cons others spells layout =>
      rw [← List.append_assoc]
      exact .cons (List.forall_mem_append.mpr ⟨blank, others⟩) spells layout

theorem append (layout : Layout tokens bytes) (layoutRest : Layout behind rest) :
    Layout (tokens ++ behind) (bytes ++ rest) := by
  induction layout with
  | nil blank => exact layoutRest.blanks_append blank
  | cons blank spells _ ih =>
      rw [List.append_assoc, List.append_assoc]
      exact .cons blank spells ih

theorem of_spells (spells : token.Spells bytes) : Layout [token] bytes := by
  have layout := Layout.cons (List.forall_mem_nil _) spells (.nil (List.forall_mem_nil _))
  rwa [List.nil_append, List.append_nil] at layout

end Layout

/-- The spelling of a token in which each character of a key stands for itself. -/
def Token.plainBytes : Token → List UInt8
  | .mark sign => [sign.byte]
  | .key name => 0x22 :: name.toList.map byteOf ++ [0x22]
  | .number value => decimalBytes value

/-- The characters of a key may stand for themselves. -/
def Token.HasPlainKey : Token → Prop
  | .key name => ∀ character ∈ name.toList, IsPlain character
  | _ => True

instance : DecidablePred Token.HasPlainKey
  | .mark _ | .number _ => inferInstanceAs (Decidable True)
  | .key name => List.decidableBAll IsPlain name.toList

theorem Token.Spells.plainBytes {token : Token} (plain : token.HasPlainKey) :
    token.Spells token.plainBytes := by
  cases token with
  | mark mark => exact .mark mark
  | key name => exact .key (.of_isPlain plain)
  | number value => exact .number value

/-- Tokens can be laid out with the same blanks in front of each. -/
theorem Layout.flatMap_plainBytes {tokens : List Token} (blanks : List UInt8)
    (blank : ∀ byte ∈ blanks, isBlank byte = true) (plain : ∀ token ∈ tokens, token.HasPlainKey) :
    Layout tokens (tokens.flatMap fun token => blanks ++ token.plainBytes) := by
  induction tokens with
  | nil => exact .nil (List.forall_mem_nil _)
  | cons token tokens ih =>
      obtain ⟨plainFirst, plainOthers⟩ := List.forall_mem_cons.mp plain
      rw [List.flatMap_cons, List.append_assoc]
      exact .cons blank (.plainBytes plainFirst) (ih plainOthers)

/-! ## Reading tokens -/

theorem Mark.isBlank_byte (mark : Mark) : isBlank mark.byte = false := by
  rcases mark with (_ | _) | (_ | _) | _ | _ <;> decide

theorem not_blank_of_isDigit {byte : UInt8} (digit : isDigit byte = true) :
    isBlank byte = false := by
  rw [Bool.eq_false_iff]
  intro blank
  simp only [isBlank, Bool.or_eq_true, beq_iff_eq] at blank
  rcases blank with ((rfl | rfl) | rfl) | rfl <;> exact absurd digit (by decide)

/-- No token is empty or begins with a blank. -/
theorem Token.Spells.eq_cons {token : Token} {bytes : List UInt8} (spells : token.Spells bytes) :
    ∃ byte rest, bytes = byte :: rest ∧ isBlank byte = false := by
  cases spells with
  | mark mark => exact ⟨mark.byte, [], rfl, mark.isBlank_byte⟩
  | key spelling => exact ⟨0x22, _, rfl, by decide⟩
  | number value =>
      obtain ⟨byte, rest, bytes_eq⟩ := List.exists_cons_of_ne_nil (decimalBytes_ne_nil value)
      have byteMem : byte ∈ decimalBytes value := bytes_eq ▸ List.mem_cons_self
      exact ⟨byte, rest, bytes_eq, not_blank_of_isDigit (isDigit_of_mem_decimalBytes byte byteMem)⟩

theorem Mark.byte_injective {first second : Mark} (same : first.byte = second.byte) :
    first = second := by
  rcases first with (_ | _) | (_ | _) | _ | _ <;> rcases second with (_ | _) | (_ | _) | _ | _ <;>
    first
      | rfl
      | exact absurd same (by decide)

theorem Mark.isDigit_byte (mark : Mark) : isDigit mark.byte = false := by
  rcases mark with (_ | _) | (_ | _) | _ | _ <;> decide

/-- Only a mark begins with its byte. -/
theorem Token.Spells.ne_byte {token : Token} {byte : UInt8} {rest : List UInt8} {mark : Mark}
    (spells : token.Spells (byte :: rest)) (ne : token ≠ .mark mark) : byte ≠ mark.byte := by
  rintro rfl
  generalize begins : mark.byte :: rest = bytes at spells
  cases spells with
  | mark other =>
      exact ne (congrArg Token.mark (Mark.byte_injective (List.cons.inj begins).1).symm)
  | key spelling =>
      have quote : mark.byte = 0x22 := (List.cons.inj begins).1
      revert quote
      rcases mark with (_ | _) | (_ | _) | _ | _ <;> decide
  | number value =>
      have digit := isDigit_of_mem_decimalBytes mark.byte (begins ▸ List.mem_cons_self)
      rw [mark.isDigit_byte] at digit
      exact Bool.false_ne_true digit

theorem skipBlanks_append {blanks : List UInt8} (blank : ∀ byte ∈ blanks, isBlank byte = true)
    (rest : List UInt8) : skipBlanks (blanks ++ rest) = skipBlanks rest :=
  List.dropWhile_append_of_pos blank

namespace Layout

variable {token : Token} {tokens : List Token} {bytes : List UInt8}

theorem blank_of_nil (layout : Layout [] bytes) : ∀ byte ∈ bytes, isBlank byte = true := by
  cases layout with
  | nil blank => exact blank

theorem skipBlanks_nil (layout : Layout [] bytes) : skipBlanks bytes = [] := by
  have skipped := skipBlanks_append layout.blank_of_nil []
  rwa [List.append_nil] at skipped

/-- Behind the blanks stands the first token. -/
theorem exists_skipBlanks_eq (layout : Layout (token :: tokens) bytes) :
    ∃ spelled rest, token.Spells spelled ∧ Layout tokens rest ∧
      skipBlanks bytes = spelled ++ rest := by
  cases layout with
  | cons blank spells layout =>
      rename_i blanks spelled rest
      refine ⟨spelled, rest, spells, layout, ?_⟩
      obtain ⟨byte, tail, rfl, noBlank⟩ := spells.eq_cons
      rw [skipBlanks_append blank, List.cons_append, skipBlanks_cons_of_not_isBlank noBlank]

theorem exists_skipBlanks_cons {mark : Mark} (layout : Layout (token :: tokens) bytes)
    (ne : token ≠ .mark mark) : ∃ byte rest, skipBlanks bytes = byte :: rest ∧
      byte ≠ mark.byte ∧ Layout (token :: tokens) (byte :: rest) := by
  obtain ⟨spelled, rest, spells, layoutRest, skipped⟩ := layout.exists_skipBlanks_eq
  obtain ⟨byte, tail, rfl, -⟩ := spells.eq_cons
  exact ⟨byte, tail ++ rest, skipped, spells.ne_byte ne,
    .cons (List.forall_mem_nil _) spells layoutRest⟩

theorem exists_skipBlanks_mark {mark : Mark} (layout : Layout (.mark mark :: tokens) bytes) :
    ∃ rest, skipBlanks bytes = mark.byte :: rest ∧ Layout tokens rest := by
  obtain ⟨_, rest, spells, layoutRest, skipped⟩ := layout.exists_skipBlanks_eq
  cases spells with
  | mark => exact ⟨rest, skipped, layoutRest⟩

theorem exists_skipBlanks_number {value : Nat} (layout : Layout (.number value :: tokens) bytes) :
    ∃ rest, skipBlanks bytes = decimalBytes value ++ rest ∧ Layout tokens rest := by
  obtain ⟨_, rest, spells, layoutRest, skipped⟩ := layout.exists_skipBlanks_eq
  cases spells with
  | number => exact ⟨rest, skipped, layoutRest⟩

/-- A layout has a byte for each of its tokens. -/
theorem length_le (layout : Layout tokens bytes) : tokens.length ≤ bytes.length := by
  induction layout with
  | nil => exact Nat.zero_le _
  | cons blank spells _ ih =>
      obtain ⟨byte, tail, rfl, -⟩ := spells.eq_cons
      simp only [List.length_append, List.length_cons]
      omega

theorem endsNumeral_cons_of_isBlank {byte : UInt8} {rest : List UInt8}
    (blank : isBlank byte = true) : EndsNumeral (byte :: rest) := by
  rintro _ ⟨⟩
  simp only [isBlank, Bool.or_eq_true, beq_iff_eq] at blank
  rcases blank with ((rfl | rfl) | rfl) | rfl <;> decide

theorem endsNumeral_cons_byte (mark : Mark) (rest : List UInt8) :
    EndsNumeral (mark.byte :: rest) := by
  rintro _ ⟨⟩
  rcases mark with (_ | _) | (_ | _) | _ | _ <;> decide

/-- No numeral goes on where a mark comes next. -/
theorem endsNumeral {mark : Mark} (layout : Layout (.mark mark :: tokens) bytes) :
    EndsNumeral bytes := by
  cases layout with
  | cons blank spells layout =>
      rename_i blanks spelled rest
      cases blanks with
      | nil =>
          cases spells with
          | mark => exact endsNumeral_cons_byte mark rest
      | cons byte blanks => exact endsNumeral_cons_of_isBlank (blank byte List.mem_cons_self)

end Layout

/-! ## Reading keys -/

theorem toNat_byteOf {character : Char} (ascii : character.val ≤ 127) :
    (byteOf character).toNat = character.toNat := by
  have lt : character.val.toNat < 128 := Nat.lt_succ_of_le (UInt32.le_iff_toNat_le.mp ascii)
  change character.val.toNat % 256 = character.val.toNat
  omega

theorem completeEscape_of_ascii {character : Char} {digits : List UInt8}
    (ascii : character.val ≤ 127) (code : hexNumber? digits = some character.toNat) :
    completeEscape true none digits = .next .text [byteOf character] := by
  have lt : character.toNat < 128 := Nat.lt_succ_of_le (UInt32.le_iff_toNat_le.mp ascii)
  have bytes : String.utf8EncodeChar character = [byteOf character] :=
    String.utf8EncodeChar_eq_singleton (Char.utf8Size_eq_one_iff.mpr ascii)
  have noLow : ¬ (0xdc00 ≤ character.toNat ∧ character.toNat < 0xe000) := by omega
  have noHigh : ¬ (0xd800 ≤ character.toNat ∧ character.toNat < 0xdc00) := by omega
  simp [completeEscape, code, noLow, noHigh, bytes]

theorem readStringFrom_escape {character : Char} {digits found rest : List UInt8}
    (ascii : character.val ≤ 127) (four : digits.length = 4)
    (code : hexNumber? digits = some character.toNat) :
    readStringFrom true .text found (0x5c :: byteOf 'u' :: digits ++ rest) =
      readStringFrom true .text (byteOf character :: found) rest := by
  obtain ⟨first, second, third, fourth, rfl⟩ : ∃ first second third fourth,
      digits = [first, second, third, fourth] := by
    match digits, four with
    | [first, second, third, fourth], _ => exact ⟨first, second, third, fourth, rfl⟩
  have complete := completeEscape_of_ascii ascii code
  have last : stringStep true (.digits none [first, second, third]) fourth =
      .next .text [byteOf character] := complete
  simp only [List.cons_append, List.nil_append]
  change readStringFrom true (.digits none [first, second, third]) found (fourth :: rest) = _
  rw [readStringFrom, last]
  rfl

theorem stringStep_plain {character : Char} (isPlain : IsPlain character) :
    stringStep true .text (byteOf character) = .next .text [byteOf character] := by
  obtain ⟨-, graphic, noQuote, noBackslash⟩ := isPlain
  simp only [stringStep, if_neg noQuote, if_neg noBackslash]
  exact if_neg (UInt8.not_lt.mpr graphic)

theorem Spelling.readStringFrom_append {text : List Char} {bytes : List UInt8}
    (spelling : Spelling text bytes) (found rest : List UInt8) :
    readStringFrom true .text found (bytes ++ 0x22 :: rest) =
      .ok (found.reverse ++ text.map byteOf, rest) := by
  induction spelling generalizing found with
  | nil => simp [readStringFrom, stringStep]
  | plain isPlain _ ih =>
      rw [List.cons_append, readStringFrom, stringStep_plain isPlain]
      exact (ih _).trans (by simp)
  | escape ascii four code _ ih =>
      rw [List.append_assoc, readStringFrom_escape ascii four code, ih]
      simp

theorem Spelling.ascii {text : List Char} {bytes : List UInt8} (spelling : Spelling text bytes) :
    ∀ character ∈ text, character.val ≤ 127 := by
  induction spelling with
  | nil => exact List.forall_mem_nil _
  | plain isPlain _ ih => exact List.forall_mem_cons.mpr ⟨isPlain.1, ih⟩
  | escape ascii _ _ _ ih => exact List.forall_mem_cons.mpr ⟨ascii, ih⟩

theorem Spelling.readString_append {text : List Char} {bytes : List UInt8}
    (spelling : Spelling text bytes) (rest : List UInt8) :
    readString (bytes ++ 0x22 :: rest) = .ok (text, rest) := by
  have small : ∀ byte ∈ text.map byteOf, byte.toNat < 0x80 := by
    intro byte byteMem
    obtain ⟨character, characterMem, rfl⟩ := List.mem_map.mp byteMem
    rw [toNat_byteOf (spelling.ascii character characterMem)]
    exact Nat.lt_succ_of_le (UInt32.le_iff_toNat_le.mp (spelling.ascii character characterMem))
  have back : (text.map byteOf).map (fun byte => Char.ofNat byte.toNat) = text := by
    rw [List.map_map]
    refine (List.map_congr_left fun character characterMem => ?_).trans (List.map_id text)
    rw [Function.comp_apply, toNat_byteOf (spelling.ascii character characterMem),
      Char.ofNat_toNat]
    rfl
  simp only [readString, spelling.readStringFrom_append [] rest, ok_bind, List.reverse_nil,
    List.nil_append, Text.utf8Text?_of_ascii small, back]
  rfl

namespace Layout

variable {tokens : List Token} {bytes : List UInt8}

theorem readKey {name : String} (layout : Layout (.key name :: tokens) bytes) :
    ∃ text rest, openKey bytes = .ok text ∧ readString text = .ok (name.toList, rest) ∧
      Layout tokens rest := by
  obtain ⟨_, rest, spells, layoutRest, skipped⟩ := layout.exists_skipBlanks_eq
  cases spells with
  | key spelling =>
      rename_i spelled
      refine ⟨spelled ++ 0x22 :: rest, rest, ?_, spelling.readString_append rest, layoutRest⟩
      rw [openKey, skipped, List.append_assoc]
      exact if_pos rfl

theorem readColon (layout : Layout (.mark .colon :: tokens) bytes) :
    ∃ rest, Json.readColon bytes = .ok rest ∧ Layout tokens rest := by
  obtain ⟨rest, skipped, layoutRest⟩ := layout.exists_skipBlanks_mark
  refine ⟨rest, ?_, layoutRest⟩
  rw [Json.readColon, skipped]
  exact if_pos rfl

theorem readNumber {value : Nat} {mark : Mark} (fits : value ≤ Text.greatestWord)
    (layout : Layout (.number value :: .mark mark :: tokens) bytes) :
    ∃ rest, Json.readNumber (skipBlanks bytes) = .ok (.integer value, rest) ∧
      Layout (.mark mark :: tokens) rest := by
  obtain ⟨rest, skipped, layoutRest⟩ := layout.exists_skipBlanks_number
  refine ⟨rest, ?_, layoutRest⟩
  rw [skipped]
  exact readNumber_decimalBytes fits layoutRest.endsNumeral

end Layout

end ByteSignature.Json
