import ByteSignature.Text.Utf8
import Mathlib.Data.String.Basic

/-!
# Byte offsets

A text takes as many bytes as its characters together, so the offset behind any of them is one
where characters meet.
-/

namespace ByteSignature.Text

@[simp]
theorem utf8Length_nil : utf8Length [] = 0 :=
  rfl

@[simp]
theorem utf8Length_cons (character : Char) (text : List Char) :
    utf8Length (character :: text) = character.utf8Size + utf8Length text :=
  rfl

@[simp]
theorem utf8Length_append (first second : List Char) :
    utf8Length (first ++ second) = utf8Length first + utf8Length second := by
  induction first with
  | nil => rw [List.nil_append, utf8Length_nil, Nat.zero_add]
  | cons character first ih =>
      rw [List.cons_append, utf8Length_cons, utf8Length_cons, ih, Nat.add_assoc]

theorem utf8Length_pos {text : List Char} (ne_nil : text ≠ []) : 0 < utf8Length text := by
  cases text with
  | nil => exact absurd rfl ne_nil
  | cons character text =>
      rw [utf8Length_cons]
      exact Nat.add_pos_left character.utf8Size_pos _

/-- A text of one byte is one character. -/
theorem length_eq_one_of_utf8Length {text : List Char} (length_eq : utf8Length text = 1) :
    text.length = 1 := by
  match text with
  | [] => cases length_eq
  | [_] => rfl
  | first :: second :: rest =>
      have firstPos := first.utf8Size_pos
      have secondPos := second.utf8Size_pos
      rw [utf8Length_cons, utf8Length_cons] at length_eq
      omega

/-- Of two beginnings of one text, the one with fewer bytes is a beginning of the other. -/
theorem prefix_of_utf8Length_le {first second text : List Char} (isFirst : first <+: text)
    (isSecond : second <+: text) (le : utf8Length first ≤ utf8Length second) :
    first <+: second := by
  rcases List.prefix_or_prefix_of_prefix isFirst isSecond with isPrefix | ⟨more, rfl⟩
  · exact isPrefix
  · cases more with
    | nil => simp only [List.append_nil, List.prefix_rfl]
    | cons character more =>
        have pos := utf8Length_pos (List.cons_ne_nil character more)
        rw [utf8Length_append] at le
        omega

/-- Beginnings of one text with equally many bytes are equal. -/
theorem eq_of_utf8Length_eq {first second text : List Char} (isFirst : first <+: text)
    (isSecond : second <+: text) (eq : utf8Length first = utf8Length second) :
    first = second := by
  have isPrefix := prefix_of_utf8Length_le isFirst isSecond (Nat.le_of_eq eq)
  have isPrefix2 := prefix_of_utf8Length_le isSecond isFirst (Nat.le_of_eq eq.symm)
  exact isPrefix.eq_of_length_le isPrefix2.length_le

theorem utf8ByteSize_ofList (text : List Char) :
    (String.ofList text).utf8ByteSize = utf8Length text := by
  induction text with
  | nil => rfl
  | cons character text ih =>
      rw [String.ofList_cons, String.utf8ByteSize_append, String.utf8ByteSize_singleton, ih,
        utf8Length_cons]

theorem utf8ByteSize_eq (source : String) : source.utf8ByteSize = utf8Length source.toList := by
  rw [← utf8ByteSize_ofList, String.ofList_toList]

/-- What stands between two offsets is cut out of a text. -/
theorem extract_utf8Length {source : String} {before text after : List Char}
    (source_eq : source.toList = before ++ text ++ after) :
    (String.Pos.Raw.extract source ⟨utf8Length before⟩
      ⟨utf8Length before + utf8Length text⟩).toList = text := by
  have length_eq (text : List Char) : utf8Length text = String.utf8Len text := by
    rw [← utf8ByteSize_ofList, String.utf8ByteSize_ofList]
  have cut := String.extract_of_valid before text after
  rw [← source_eq, String.ofList_toList] at cut
  rw [length_eq, length_eq, cut, String.toList_ofList]

/-- Characters meet behind each part that a text begins with. -/
theorem isValid_utf8Length {source : String} {before after : List Char}
    (source_eq : source.toList = before ++ after) :
    String.Pos.Raw.IsValid source ⟨utf8Length before⟩ := by
  rw [String.Pos.Raw.isValid_iff_exists_append]
  refine ⟨String.ofList before, String.ofList after, ?_, ?_⟩
  · rw [← String.ofList_append, ← source_eq, String.ofList_toList]
  · rw [String.rawEndPos, utf8ByteSize_ofList]

end ByteSignature.Text
