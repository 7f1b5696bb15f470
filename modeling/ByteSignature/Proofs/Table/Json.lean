import Mathlib.Data.List.Forall2
import ByteSignature.Proofs.Json.Layout
import ByteSignature.Table.Json

/-!
# Lists of entries in JSON

A list of entries is read alike however it is laid out, whichever of its entries are lists
and whichever are objects, and in whatever order their fields come.  What is read are its
entries.  A list that has been written is such a list, with objects whose fields are in order.
-/

namespace ByteSignature

namespace Table

open Json (Layout Mark Bracket ok_bind)

/-! ## Tokens of a list of entries -/

/-- The tokens of some items, with a comma in front of each of them but the first. -/
def itemTokens : (isFirst : Bool) → List (List Json.Token) → List Json.Token
  | _, [] => []
  | isFirst, item :: items =>
      (if isFirst then [] else [.mark .comma]) ++ item ++ itemTokens false items

/-- The tokens of some items in a bracket. -/
def bracketTokens (bracket : Bracket) (items : List (List Json.Token)) : List Json.Token :=
  .mark (.opening bracket) :: (itemTokens true items ++ [.mark (.closing bracket)])

/-- How an entry is written. -/
inductive EntryForm where
  /-- As an object, with its fields in some order. -/
  | object (order : List Field) (isPerm : order.Perm Field.all)
  /-- As a list of four numbers. -/
  | list

/-- The tokens of a field of an entry. -/
def memberTokens (entry : Entry) (field : Field) : List Json.Token :=
  [.key field.name, .mark .colon, .number (field.get entry)]

/-- The tokens of an entry. -/
def EntryForm.tokens (entry : Entry) : EntryForm → List Json.Token
  | object order _ => bracketTokens .object (order.map (memberTokens entry))
  | list => bracketTokens .list (Field.all.map fun field => [.number (field.get entry)])

/-- The form in which entries are written: the fields come in order. -/
def EntryForm.ordered : EntryForm :=
  .object Field.all (.refl _)

/-- The tokens of a list of entries, each of which is written in a form. -/
def arrayTokens (written : List (EntryForm × Entry)) : List Json.Token :=
  bracketTokens .list (written.map fun item => item.1.tokens item.2)

theorem bracketTokens_append (bracket : Bracket) (items : List (List Json.Token))
    (tokens : List Json.Token) :
    bracketTokens bracket items ++ tokens = .mark (.opening bracket) ::
      (itemTokens true items ++ .mark (.closing bracket) :: tokens) := by
  simp only [bracketTokens, List.cons_append, List.append_assoc, List.nil_append]

/-! ## Reading fields -/

variable {entry : Entry} {field : Field} {tokens : List Json.Token} {bytes : List UInt8}

theorem Field.get_le_greatest (entry : Entry) (field : Field) :
    field.get entry ≤ field.greatest := by
  cases field with
  | state => exact Nat.le_of_lt_succ entry.state.toNat_lt
  | symbol => exact Nat.le_of_lt_succ entry.symbol.toNat_lt
  | next => exact Nat.le_of_lt_succ entry.next.toNat_lt
  | accept => exact Nat.le_of_lt_succ entry.accept.toNat_lt

theorem Field.greatest_le_greatestWord (field : Field) : field.greatest ≤ Text.greatestWord := by
  cases field <;> decide

theorem Field.ofName?_name (field : Field) : Field.ofName? field.name = some field := by
  cases field <;> decide

theorem liftFault_ok {α : Type} (value : α) : liftFault (.ok value) = .ok value :=
  rfl

theorem readValue_of_layout {mark : Mark}
    (layout : Layout (.number (field.get entry) :: .mark mark :: tokens) bytes) :
    ∃ rest, readValue field bytes = .ok (field.get entry, rest) ∧
      Layout (.mark mark :: tokens) rest := by
  have le := field.get_le_greatest entry
  have fits := Nat.le_trans le field.greatest_le_greatestWord
  obtain ⟨rest, number, layoutRest⟩ := layout.readNumber fits
  obtain ⟨_, skipped, -⟩ := layout.exists_skipBlanks_number
  obtain ⟨byte, digits, digits_eq⟩ :=
    List.exists_cons_of_ne_nil (Json.decimalBytes_ne_nil (field.get entry))
  have digit : Json.startsNumeral byte = true := by
    rw [Json.startsNumeral, Json.isDigit_of_mem_decimalBytes byte (digits_eq ▸ List.mem_cons_self),
      Bool.or_true]
  rw [digits_eq, List.cons_append] at skipped
  rw [skipped] at number
  refine ⟨rest, ?_, layoutRest⟩
  rw [readValue, skipped]
  simp only [if_pos digit, number, liftFault_ok, ok_bind]
  exact if_pos le

/-! ## Looking for items -/

theorem nextItem_of_closing {isFirst : Bool}
    (layout : Layout (.mark (.closing .list) :: tokens) bytes) :
    nextItem isFirst bytes = .ok none := by
  obtain ⟨rest, skipped, -⟩ := layout.exists_skipBlanks_mark
  rw [nextItem, skipped]
  exact if_pos rfl

theorem nextItem_of_token {isFirst : Bool} {token : Json.Token}
    (ne : token ≠ .mark (.closing .list))
    (layout :
      Layout ((if isFirst then [] else [Json.Token.mark .comma]) ++ token :: tokens) bytes) :
    ∃ rest, nextItem isFirst bytes = .ok (some rest) ∧ Layout (token :: tokens) rest := by
  cases isFirst with
  | true =>
      obtain ⟨byte, rest, skipped, noClose, layoutRest⟩ := layout.exists_skipBlanks_cons ne
      refine ⟨byte :: rest, ?_, layoutRest⟩
      rw [nextItem, skipped]
      exact if_neg noClose
  | false =>
      obtain ⟨behind, skipped, layoutBehind⟩ := layout.exists_skipBlanks_mark
      obtain ⟨byte, rest, skippedBehind, noClose, layoutRest⟩ :=
        layoutBehind.exists_skipBlanks_cons ne
      refine ⟨byte :: rest, ?_, layoutRest⟩
      simp only [nextItem, skipped, skippedBehind]
      exact if_neg noClose

theorem readClose_of_layout {bracket : Bracket}
    (layout : Layout (.mark (.closing bracket) :: tokens) bytes) :
    ∃ rest, readClose bracket bytes = .ok rest ∧ Layout tokens rest := by
  obtain ⟨rest, skipped, layoutRest⟩ := layout.exists_skipBlanks_mark
  refine ⟨rest, ?_, layoutRest⟩
  rw [readClose, skipped]
  exact if_pos rfl

theorem nextKey_of_closing {isFirst : Bool}
    (layout : Layout (.mark (.closing .object) :: tokens) bytes) :
    nextKey isFirst bytes = .ok none := by
  obtain ⟨rest, skipped, -⟩ := layout.exists_skipBlanks_mark
  rw [nextKey, skipped]
  exact if_pos rfl

theorem nextKey_of_key {isFirst : Bool} {name : String}
    (layout : Layout ((if isFirst then [] else [Json.Token.mark .comma]) ++
      .key name :: tokens) bytes) :
    ∃ rest, nextKey isFirst bytes = .ok (some (name.toList, rest)) ∧ Layout tokens rest := by
  cases isFirst with
  | true =>
      have ne : Json.Token.key name ≠ .mark (.closing .object) := nofun
      obtain ⟨byte, behind, skipped, noClose, layoutKey⟩ := layout.exists_skipBlanks_cons ne
      obtain ⟨text, rest, opened, read, layoutRest⟩ := layoutKey.readKey
      refine ⟨rest, ?_, layoutRest⟩
      have noBrace : ¬ byte = 0x7d := noClose
      simp only [nextKey, skipped, if_neg noBrace, opened, read, ok_bind]
      rfl
  | false =>
      obtain ⟨behind, skipped, layoutKey⟩ := layout.exists_skipBlanks_mark
      obtain ⟨text, rest, opened, read, layoutRest⟩ := layoutKey.readKey
      refine ⟨rest, ?_, layoutRest⟩
      simp only [nextKey, skipped, opened, read, ok_bind]
      rfl

/-! ## Reading entries -/

/-- Behind an item comes a mark. -/
theorem exists_mark_itemTokens (items : List (List Json.Token)) (mark : Mark)
    (tokens : List Json.Token) : ∃ next behind,
      itemTokens false items ++ .mark mark :: tokens = .mark next :: behind := by
  cases items with
  | nil => exact ⟨mark, tokens, rfl⟩
  | cons item items => exact ⟨.comma, _, rfl⟩

theorem readValue_of_layout_itemTokens {items : List (List Json.Token)} {mark : Mark}
    (layout : Layout (.number (field.get entry) :: (itemTokens false items ++
      .mark mark :: tokens)) bytes) :
    ∃ rest, readValue field bytes = .ok (field.get entry, rest) ∧
      Layout (itemTokens false items ++ .mark mark :: tokens) rest := by
  obtain ⟨next, behind, tokens_eq⟩ := exists_mark_itemTokens items mark tokens
  rw [tokens_eq] at layout ⊢
  exact readValue_of_layout layout

theorem readItems_of_layout {fields : List Field} (count : Nat) {mark : Mark}
    (layout : Layout (itemTokens (count == 0)
      (fields.map fun field => [.number (field.get entry)]) ++ .mark mark :: tokens) bytes) :
    ∃ rest, readItems count fields bytes = .ok (fields.map (Field.get entry), rest) ∧
      Layout (.mark mark :: tokens) rest := by
  induction fields generalizing count bytes with
  | nil => exact ⟨bytes, rfl, layout⟩
  | cons field fields ih =>
      simp only [List.map_cons, itemTokens, List.append_assoc, List.cons_append] at layout
      have ne : Json.Token.number (field.get entry) ≠ .mark (.closing .list) := nofun
      obtain ⟨item, next, layoutItem⟩ := nextItem_of_token ne layout
      obtain ⟨behind, value, layoutBehind⟩ := readValue_of_layout_itemTokens layoutItem
      obtain ⟨rest, values, layoutRest⟩ := ih (count + 1) layoutBehind
      refine ⟨rest, ?_, layoutRest⟩
      simp only [readItems, next, value, values, ok_bind]
      rfl

/-- The draft that lacks the fields in a list and has the values of an entry for the
others. -/
def draftWithout (entry : Entry) (fields : List Field) : Draft :=
  fun field => if field ∈ fields then none else some (field.get entry)

theorem draftWithout_of_perm {fields : List Field} (isPerm : fields.Perm Field.all) :
    draftWithout entry fields = .empty := by
  funext field
  have fieldMem : field ∈ Field.all := by cases field <;> decide
  exact if_pos (isPerm.mem_iff.mpr fieldMem)

theorem set_draftWithout {fields : List Field} (notMem : field ∉ fields) :
    (draftWithout entry (field :: fields)).set field (field.get entry) =
      draftWithout entry fields := by
  funext other
  rw [Draft.set]
  split
  · next same =>
      subst same
      exact (if_neg notMem).symm
  · next differs => simp [draftWithout, differs]

theorem ofValues_all (entry : Entry) :
    Draft.ofValues (Field.all.map (Field.get entry)) = draftWithout entry [] := by
  funext field
  cases field <;> rfl

/-- An entry is made from all its values. -/
theorem completeEntry_draftWithout_nil (entry : Entry) (rest : List UInt8) :
    completeEntry (draftWithout entry []) rest = .ok (entry, rest) := by
  have made : (draftWithout entry []).entry = .ok entry := by
    change Except.ok (Entry.mk entry.state.toNat.toUInt16 entry.symbol.toNat.toUInt8
      entry.next.toNat.toUInt16 entry.accept.toNat.toUInt8) = .ok entry
    simp
  rw [completeEntry, made]

/-- The members of an object fill the draft that lacks their fields. -/
theorem readMembers_of_layout {order : List Field} {isFirst : Bool} {steps : Nat}
    (nodup : order.Nodup) (enough : order.length < steps)
    (layout : Layout (itemTokens isFirst (order.map (memberTokens entry)) ++
      .mark (.closing .object) :: tokens) bytes) :
    ∃ rest, readMembers steps isFirst (draftWithout entry order) bytes = .ok (entry, rest) ∧
      Layout tokens rest := by
  -- The draft lacks exactly the fields that are still to come.
  induction order generalizing isFirst steps bytes with
  | nil =>
      obtain ⟨steps, rfl⟩ := Nat.exists_eq_add_one_of_ne_zero (Nat.ne_of_gt enough)
      obtain ⟨rest, close, layoutRest⟩ := readClose_of_layout layout
      refine ⟨rest, ?_, layoutRest⟩
      simp only [readMembers, nextKey_of_closing layout, close, ok_bind]
      exact completeEntry_draftWithout_nil entry rest
  | cons field order ih =>
      obtain ⟨steps, rfl⟩ := Nat.exists_eq_add_one_of_ne_zero (Nat.ne_zero_of_lt enough)
      obtain ⟨notMem, nodupOrder⟩ := List.nodup_cons.mp nodup
      simp only [List.map_cons, itemTokens, memberTokens, List.append_assoc, List.cons_append,
        List.nil_append] at layout
      obtain ⟨colon, key, layoutColon⟩ := nextKey_of_key layout
      obtain ⟨number, passed, layoutNumber⟩ := layoutColon.readColon
      obtain ⟨behind, value, layoutBehind⟩ := readValue_of_layout_itemTokens layoutNumber
      obtain ⟨rest, members, layoutRest⟩ :=
        ih nodupOrder (Nat.lt_of_succ_lt_succ enough) layoutBehind
      refine ⟨rest, ?_, layoutRest⟩
      have lacking : (draftWithout entry (field :: order) field).isSome = false := by
        simp [draftWithout]
      simp only [readMembers, key, ok_bind, String.ofList_toList, Field.ofName?_name, lacking,
        Bool.false_eq_true, if_false, passed, liftFault_ok, value, set_draftWithout notMem]
      exact members

theorem readEntry_of_layout {form : EntryForm} {steps : Nat} (enough : 4 < steps)
    (layout : Layout (form.tokens entry ++ tokens) bytes) :
    ∃ rest, readEntry steps bytes = .ok (entry, rest) ∧ Layout tokens rest := by
  cases form with
  | object order isPerm =>
      rw [EntryForm.tokens, bracketTokens_append] at layout
      obtain ⟨members, skipped, layoutMembers⟩ := layout.exists_skipBlanks_mark
      have nodup : order.Nodup := isPerm.nodup_iff.mpr (by decide)
      have count : order.length < steps := isPerm.length_eq ▸ enough
      obtain ⟨rest, read, layoutRest⟩ := readMembers_of_layout nodup count layoutMembers
      refine ⟨rest, ?_, layoutRest⟩
      rw [draftWithout_of_perm isPerm] at read
      rw [readEntry, skipped]
      exact read
  | list =>
      rw [EntryForm.tokens, bracketTokens_append] at layout
      obtain ⟨items, skipped, layoutItems⟩ := layout.exists_skipBlanks_mark
      obtain ⟨close, values, layoutClose⟩ := readItems_of_layout 0 layoutItems
      obtain ⟨rest, closed, layoutRest⟩ := readClose_of_layout layoutClose
      refine ⟨rest, ?_, layoutRest⟩
      rw [readEntry, skipped]
      change (readItems 0 Field.all items >>= fun pair =>
        readClose .list pair.2 >>= fun rest => completeEntry (.ofValues pair.1) rest) = _
      rw [values, ok_bind, closed, ok_bind, ofValues_all]
      exact completeEntry_draftWithout_nil entry rest

theorem length_le_length_itemTokens {items : List (List Json.Token)} (isFirst : Bool)
    (nonempty : ∀ item ∈ items, item ≠ []) : items.length ≤ (itemTokens isFirst items).length := by
  induction items generalizing isFirst with
  | nil => exact Nat.zero_le _
  | cons item items ih =>
      obtain ⟨itemNonempty, others⟩ := List.forall_mem_cons.mp nonempty
      have first := List.length_pos_iff.mpr itemNonempty
      have behind := ih false others
      simp only [itemTokens, List.length_append, List.length_cons]
      omega

theorem add_two_le_length_bracketTokens (bracket : Bracket) {items : List (List Json.Token)}
    (nonempty : ∀ item ∈ items, item ≠ []) :
    items.length + 2 ≤ (bracketTokens bracket items).length := by
  have le := length_le_length_itemTokens true nonempty
  simp only [bracketTokens, List.length_cons, List.length_append, List.length_nil]
  omega

/-- The tokens of an entry outnumber its fields, which bounds the steps that it takes. -/
theorem EntryForm.four_lt_length_tokens (form : EntryForm) (entry : Entry) :
    4 < (form.tokens entry).length := by
  cases form with
  | object order isPerm =>
      have nonempty : ∀ item ∈ order.map (memberTokens entry), item ≠ [] :=
        List.forall_mem_map.mpr fun _ _ => List.cons_ne_nil _ _
      have le := add_two_le_length_bracketTokens .object nonempty
      rw [List.length_map, isPerm.length_eq] at le
      exact Nat.lt_of_lt_of_le (by decide) le
  | list =>
      have nonempty : ∀ item ∈ Field.all.map fun field => [.number (field.get entry)],
          item ≠ ([] : List Json.Token) :=
        List.forall_mem_map.mpr fun _ _ => List.cons_ne_nil _ _
      have le := add_two_le_length_bracketTokens .list nonempty
      rw [List.length_map] at le
      exact Nat.lt_of_lt_of_le (by decide) le

theorem EntryForm.exists_tokens_eq_cons (form : EntryForm) (entry : Entry) :
    ∃ bracket behind, form.tokens entry = .mark (.opening bracket) :: behind := by
  cases form with
  | object order isPerm => exact ⟨.object, _, rfl⟩
  | list => exact ⟨.list, _, rfl⟩

theorem readEntries_of_layout {written : List (EntryForm × Entry)} {isFirst : Bool} {steps : Nat}
    (enough : (itemTokens isFirst (written.map fun item => item.1.tokens item.2)).length < steps)
    (layout : Layout (itemTokens isFirst (written.map fun item => item.1.tokens item.2) ++
      .mark (.closing .list) :: tokens) bytes) :
    ∃ rest, readEntries steps isFirst bytes = .ok (written.map Prod.snd, rest) ∧
      Layout tokens rest := by
  -- Steps outnumber the tokens of the entries that are still to come, and so suffice for each.
  induction written generalizing isFirst steps bytes with
  | nil =>
      obtain ⟨steps, rfl⟩ := Nat.exists_eq_add_one_of_ne_zero (Nat.ne_of_gt enough)
      obtain ⟨rest, close, layoutRest⟩ := readClose_of_layout layout
      refine ⟨rest, ?_, layoutRest⟩
      simp only [readEntries, nextItem_of_closing layout, close, ok_bind]
      rfl
  | cons item written ih =>
      obtain ⟨form, entry⟩ := item
      obtain ⟨steps, rfl⟩ := Nat.exists_eq_add_one_of_ne_zero (Nat.ne_zero_of_lt enough)
      have long := form.four_lt_length_tokens entry
      simp only [List.map_cons, itemTokens, List.length_append] at enough
      simp only [List.map_cons, itemTokens, List.append_assoc] at layout
      obtain ⟨bracket, behind, tokens_eq⟩ := form.exists_tokens_eq_cons entry
      have ne : Json.Token.mark (.opening bracket) ≠ .mark (.closing .list) := by simp
      rw [tokens_eq, List.cons_append] at layout
      obtain ⟨bytesEntry, next, layoutEntry⟩ := nextItem_of_token ne layout
      rw [← List.cons_append, ← tokens_eq] at layoutEntry
      have room : 4 < steps := by omega
      obtain ⟨bytesBehind, read, layoutBehind⟩ := readEntry_of_layout room layoutEntry
      have roomBehind : (itemTokens false
          (written.map fun item => item.1.tokens item.2)).length < steps := by omega
      obtain ⟨rest, entries, layoutRest⟩ := ih roomBehind layoutBehind
      refine ⟨rest, ?_, layoutRest⟩
      simp only [readEntries, next, read, entries, ok_bind]
      rfl

/-! ## Reading lists -/

theorem readEntryList_of_layout {written : List (EntryForm × Entry)}
    (layout : Layout (arrayTokens written) bytes) :
    ∃ rest, readEntryList bytes = .ok (written.map Prod.snd, rest) ∧ Layout [] rest := by
  obtain ⟨behind, skipped, layoutBehind⟩ := layout.exists_skipBlanks_mark
  have enough := layoutBehind.length_le
  rw [List.length_append, List.length_singleton] at enough
  obtain ⟨rest, read, layoutRest⟩ :=
    readEntries_of_layout (Nat.lt_of_lt_of_le enough (Nat.le_succ _)) layoutBehind
  refine ⟨rest, ?_, layoutRest⟩
  rw [readEntryList, skipped]
  exact read

/-! ## Written lists -/

/-- The white space is blank. -/
def JsonSpacing.IsBlank (spacing : JsonSpacing) : Prop :=
  ∀ text ∈ [spacing.entry, spacing.field, spacing.value, spacing.closeEntry, spacing.closeList],
    text.toUTF8.toList.all Json.isBlank = true

theorem JsonSpacing.isBlank_indented : indented.IsBlank := by
  intro text textMem
  rw [Text.toList_toUTF8]
  revert text
  decide

theorem JsonSpacing.isBlank_compact : compact.IsBlank := by
  intro text textMem
  rw [Text.toList_toUTF8]
  revert text
  decide

theorem toList_toUTF8_toString (value : Nat) :
    (toString value).toUTF8.toList = Json.decimalBytes value := by
  have digits : (toString value).toList = Text.decimal value := Nat.toList_repr
  rw [Text.toList_toUTF8_of_ascii, digits, Json.decimalBytes]
  intro character characterMem
  have digit := Text.isDigit_of_mem_decimal (digits ▸ characterMem)
  simp only [Char.isDigit, Bool.and_eq_true, decide_eq_true_eq] at digit
  exact UInt32.le_trans digit.2 (by decide)

theorem Field.isPlain_name (field : Field) :
    ∀ character ∈ field.name.toList, Json.IsPlain character := by
  have plain : field.name.toList.all (fun character => decide (Json.IsPlain character)) = true := by
    cases field <;> rfl
  intro character characterMem
  exact of_decide_eq_true (List.all_eq_true.mp plain character characterMem)

theorem Field.toList_toUTF8_name (field : Field) :
    field.name.toUTF8.toList = field.name.toList.map Json.byteOf :=
  Text.toList_toUTF8_of_ascii fun character characterMem =>
    (field.isPlain_name character characterMem).1

theorem layout_intercalate {items : List (List Json.Token)} {texts : List String}
    (layouts : List.Forall₂ (fun item text => Layout item text.toUTF8.toList) items texts) :
    Layout (itemTokens true items) (",".intercalate texts).toUTF8.toList := by
  have comma : ",".toUTF8.toList = [Mark.comma.byte] := by rw [Text.toList_toUTF8]; rfl
  induction layouts with
  | nil =>
      rw [String.intercalate_nil, Text.toList_toUTF8]
      exact .nil (List.forall_mem_nil _)
  | @cons item text items texts layout layouts ih =>
      cases layouts with
      | nil =>
          rw [String.intercalate_singleton]
          rwa [itemTokens, itemTokens, if_pos rfl, List.nil_append, List.append_nil]
      | cons next layouts =>
          rw [String.intercalate_cons_cons, Text.toList_toUTF8_append, Text.toList_toUTF8_append,
            List.append_assoc, comma]
          exact layout.append ((Layout.of_spells (.mark .comma)).append ih)

variable {spacing : JsonSpacing}

/-- The written form of a field of an entry. -/
theorem layout_member (blank : spacing.IsBlank) (entry : Entry) (field : Field) :
    Layout (memberTokens entry field) (spacing.field ++ "\"" ++ field.name ++ "\":" ++
      spacing.value ++ toString (field.get entry)).toUTF8.toList := by
  have quote : "\"".toUTF8.toList = [0x22] := by rw [Text.toList_toUTF8]; rfl
  have quoteColon : "\":".toUTF8.toList = [0x22, Mark.colon.byte] := by
    rw [Text.toList_toUTF8]; rfl
  have blankField := List.all_eq_true.mp (blank spacing.field (by simp))
  have blankValue := List.all_eq_true.mp (blank spacing.value (by simp))
  have layout : Layout (memberTokens entry field) _ :=
    ((Layout.of_spells (.key (.of_isPlain field.isPlain_name))).blanks_append blankField).append
      ((Layout.of_spells (.mark .colon)).append
        ((Layout.of_spells (.number (field.get entry))).blanks_append blankValue))
  simpa only [Text.toList_toUTF8_append, quote, quoteColon, field.toList_toUTF8_name,
    toList_toUTF8_toString, List.append_assoc, List.cons_append, List.nil_append] using layout

theorem layout_renderJsonEntry (blank : spacing.IsBlank) (entry : Entry) :
    Layout (bracketTokens .object (Field.all.map (memberTokens entry)))
      (renderJsonEntry spacing entry).toUTF8.toList := by
  have opening : "\x7b".toUTF8.toList = [(Mark.opening .object).byte] := by
    rw [Text.toList_toUTF8]; rfl
  have closing : "\x7d".toUTF8.toList = [(Mark.closing .object).byte] := by
    rw [Text.toList_toUTF8]; rfl
  have blankEntry := List.all_eq_true.mp (blank spacing.entry (by simp))
  have blankClose := List.all_eq_true.mp (blank spacing.closeEntry (by simp))
  have members := layout_intercalate (List.forall₂_map_left_iff.mpr
    (List.forall₂_map_right_iff.mpr (List.forall₂_same.mpr fun field (_ : field ∈ Field.all) =>
      layout_member blank entry field)))
  have layout : Layout (bracketTokens .object (Field.all.map (memberTokens entry))) _ :=
    ((Layout.of_spells (.mark (.opening .object))).blanks_append blankEntry).append
      (members.append ((Layout.of_spells (.mark (.closing .object))).blanks_append blankClose))
  simpa only [renderJsonEntry, Text.toList_toUTF8_append, opening, closing,
    List.append_assoc] using layout

/-- A list of entries is written with an object for each of them. -/
theorem layout_renderJson (blank : spacing.IsBlank) (entries : List Entry) :
    Layout (arrayTokens (entries.map (Prod.mk .ordered)))
      (renderJson spacing entries).toUTF8.toList := by
  have opening : "[".toUTF8.toList = [(Mark.opening .list).byte] := by
    rw [Text.toList_toUTF8]; rfl
  have closing : "]".toUTF8.toList = [(Mark.closing .list).byte] := by
    rw [Text.toList_toUTF8]; rfl
  have blankClose : ∀ byte ∈ (if entries.isEmpty then "" else spacing.closeList).toUTF8.toList,
      Json.isBlank byte = true := by
    split
    · simp
    · exact List.all_eq_true.mp (blank spacing.closeList (by simp))
  have items := layout_intercalate (List.forall₂_map_left_iff.mpr
    (List.forall₂_map_right_iff.mpr (List.forall₂_same.mpr
      fun entry (_ : entry ∈ entries) => layout_renderJsonEntry blank entry)))
  have layout : Layout (bracketTokens .list (entries.map _)) _ :=
    (Layout.of_spells (.mark (.opening .list))).append
      (items.append ((Layout.of_spells (.mark (.closing .list))).blanks_append blankClose))
  rw [arrayTokens, List.map_map]
  simp only [renderJson, Text.toList_toUTF8_append, opening, closing, List.append_assoc] at layout ⊢
  exact layout

end Table

end ByteSignature
