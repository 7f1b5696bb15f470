import ByteSignature.Text.Utf8

/-!
# The bytes of a text

The bytes of a text are those of its characters in a row.  So two texts in a row have the
bytes of the first and then those of the second, and ASCII characters have one byte each.
The other way round, bytes below 128 are read as one character each.
-/

namespace ByteSignature.Text

theorem toList_loop_eq (bytes : ByteArray) (index : Nat) (found : List UInt8) :
    ByteArray.toList.loop bytes index found = found.reverse ++ bytes.data.toList.drop index := by
  fun_induction ByteArray.toList.loop bytes index found with
  | case1 index found lt ih =>
      have inside : index < bytes.data.toList.length := by simpa using lt
      have next : bytes.get! index = bytes.data.toList[index] := by
        simp [ByteArray.get!, lt]
      rw [ih, List.drop_eq_getElem_cons inside, ← next, List.reverse_cons, List.append_assoc]
      rfl
  | case2 index found done =>
      have behind : bytes.data.toList.length ≤ index := by simpa using Nat.not_lt.mp done
      rw [List.drop_eq_nil_of_le behind, List.append_nil]

theorem toList_toUTF8 (text : String) :
    text.toUTF8.toList = text.toList.flatMap String.utf8EncodeChar := by
  have whole : text.toUTF8.toList = text.toUTF8.data.toList := toList_loop_eq _ 0 []
  rw [whole, String.toUTF8_eq_toByteArray, ← String.utf8Encode_toList, List.utf8Encode,
    List.data_toByteArray]

theorem toList_toUTF8_append (first second : String) :
    (first ++ second).toUTF8.toList = first.toUTF8.toList ++ second.toUTF8.toList := by
  rw [toList_toUTF8, toList_toUTF8, toList_toUTF8, String.toList_append, List.flatMap_append]

/-- An ASCII character has one byte. -/
theorem toList_toUTF8_of_ascii {text : String} (ascii : ∀ character ∈ text.toList,
    character.val ≤ 127) : text.toUTF8.toList = text.toList.map Char.toUInt8 := by
  rw [toList_toUTF8, List.map_eq_flatMap, List.flatMap_def, List.flatMap_def]
  congr 1
  apply List.map_congr_left
  intro character characterMem
  exact String.utf8EncodeChar_eq_singleton
    (Char.utf8Size_eq_one_iff.mpr (ascii character characterMem))

theorem foldl_step_of_ascii {bytes : List UInt8} (ascii : ∀ byte ∈ bytes, byte.toNat < 0x80)
    (characters : Array (Option Char)) :
    bytes.foldl Utf8State.step ⟨characters, none⟩ =
      ⟨characters ++ (bytes.map fun byte => some (Char.ofNat byte.toNat)).toArray, none⟩ := by
  induction bytes generalizing characters with
  | nil => simp
  | cons byte bytes ih =>
      have step : Utf8State.step ⟨characters, none⟩ byte =
          ⟨characters.push (some (Char.ofNat byte.toNat)), none⟩ :=
        if_pos (ascii byte List.mem_cons_self)
      rw [List.foldl_cons, step, ih fun other otherMem =>
        ascii other (List.mem_cons_of_mem byte otherMem)]
      simp

theorem utf8Text?_of_ascii {bytes : List UInt8} (ascii : ∀ byte ∈ bytes, byte.toNat < 0x80) :
    utf8Text? bytes = some (bytes.map fun byte => Char.ofNat byte.toNat) := by
  rw [utf8Text?, utf8Pieces, Utf8State.initial, foldl_step_of_ascii ascii]
  have pieces : (Utf8State.mk
      (#[] ++ (bytes.map fun byte => some (Char.ofNat byte.toNat)).toArray) none).finish =
        bytes.map fun byte => some (Char.ofNat byte.toNat) := by
    simp [Utf8State.finish]
  rw [pieces, List.mapM_map]
  exact List.mapM_pure

end ByteSignature.Text
