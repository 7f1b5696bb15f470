import ByteSignature.Proofs.Table.Ordered
import ByteSignature.Table.Record

/-!
# Records and tables

Some bytes are the records of a table exactly when they are cut into whole records, the
padding of each record is zero, and no two records share a key.  Writing a table sorts its
records by state and byte, so what was read is written back as it was exactly when its
records were sorted.
-/

namespace ByteSignature.Table

/-! ## States as bytes -/

theorem toNat_stateOfBytes (low high : UInt8) :
    (stateOfBytes low high).toNat = low.toNat + 256 * high.toNat := by
  have lowLt : low.toNat < 2 ^ 8 := low.toNat_lt
  have highLt := high.toNat_lt
  have shifted : (high.toUInt16 <<< 8).toNat = high.toNat <<< 8 := by
    rw [UInt16.toNat_shiftLeft, UInt8.toNat_toUInt16]
    apply Nat.mod_eq_of_lt
    rw [Nat.shiftLeft_eq]
    change high.toNat * 256 < 65536
    omega
  rw [stateOfBytes, UInt16.toNat_or, UInt8.toNat_toUInt16, shifted, Nat.or_comm,
    ← Nat.shiftLeft_add_eq_or_of_lt lowLt, Nat.shiftLeft_eq]
  omega

/-- The low byte and the high byte of a state spell it. -/
theorem stateOfBytes_toUInt8 (state : UInt16) :
    stateOfBytes state.toUInt8 (state >>> 8).toUInt8 = state := by
  have stateLt := state.toNat_lt
  apply UInt16.toNat.inj
  rw [toNat_stateOfBytes, UInt16.toNat_toUInt8, UInt16.toNat_toUInt8, UInt16.toNat_shiftRight]
  change state.toNat % 256 + 256 * (state.toNat >>> 8 % 256) = state.toNat
  rw [Nat.shiftRight_eq_div_pow]
  omega

/-- Two bytes are the low byte and the high byte of the state that they spell. -/
theorem stateBytes_stateOfBytes (low high : UInt8) :
    stateBytes (stateOfBytes low high) = [low, high] := by
  have lowLt := low.toNat_lt
  have highLt := high.toNat_lt
  have lowEq : (stateOfBytes low high).toUInt8 = low := by
    apply UInt8.toNat.inj
    rw [UInt16.toNat_toUInt8, toNat_stateOfBytes]
    omega
  have highEq : (stateOfBytes low high >>> 8).toUInt8 = high := by
    apply UInt8.toNat.inj
    rw [UInt16.toNat_toUInt8, UInt16.toNat_shiftRight, toNat_stateOfBytes]
    change (low.toNat + 256 * high.toNat) >>> 8 % 256 = high.toNat
    rw [Nat.shiftRight_eq_div_pow]
    omega
  rw [stateBytes, lowEq, highEq]

/-! ## Records -/

/-- The whole records of some bytes, eight bytes each. -/
def records (bytes : List UInt8) : List (List UInt8) :=
  (List.range (bytes.length / 8)).map fun index => (bytes.drop (8 * index)).take 8

theorem records_append {record : List UInt8} (length_eq : record.length = 8)
    (rest : List UInt8) : records (record ++ rest) = record :: records rest := by
  have count : (record ++ rest).length / 8 = rest.length / 8 + 1 := by
    rw [List.length_append, length_eq]
    omega
  rw [records, count, List.range_succ_eq_map, List.map_cons, List.map_map, records]
  congr 1
  · rw [Nat.mul_zero, List.drop_zero, ← length_eq, List.take_left]
  · apply List.map_congr_left
    intro index _
    have offset : 8 * (index + 1) = record.length + 8 * index := by omega
    rw [Function.comp_apply, offset, List.drop_length_add_append]

theorem records_flatten {list : List (List UInt8)}
    (length_eq : ∀ record ∈ list, record.length = 8) : records list.flatten = list := by
  induction list with
  | nil => rfl
  | cons record list ih =>
      rw [List.forall_mem_cons] at length_eq
      rw [List.flatten_cons, records_append length_eq.1, ih length_eq.2]

theorem length_eq_of_mem_records {bytes record : List UInt8}
    (recordMem : record ∈ records bytes) : record.length = 8 := by
  obtain ⟨index, indexMem, rfl⟩ := List.mem_map.mp recordMem
  rw [List.mem_range] at indexMem
  rw [List.length_take, List.length_drop]
  omega

/-- Bytes that are cut into whole records are these records in a row. -/
theorem exists_eq_flatten {bytes : List UInt8} (whole : 8 ∣ bytes.length) :
    ∃ list : List (List UInt8), (∀ record ∈ list, record.length = 8) ∧
      bytes = list.flatten := by
  obtain ⟨count, length_eq⟩ := whole
  induction count generalizing bytes with
  | zero => exact ⟨[], by simp, List.length_eq_zero_iff.mp length_eq⟩
  | succ count ih =>
      obtain ⟨list, lengths, drop_eq⟩ := @ih (bytes.drop 8) (by rw [List.length_drop]; omega)
      refine ⟨bytes.take 8 :: list, ?_, ?_⟩
      · rw [List.forall_mem_cons]
        exact ⟨List.length_take_of_le (by omega), lengths⟩
      · rw [List.flatten_cons, ← drop_eq, List.take_append_drop]

theorem flatten_records {bytes : List UInt8} (whole : 8 ∣ bytes.length) :
    (records bytes).flatten = bytes := by
  obtain ⟨list, length_eq, rfl⟩ := exists_eq_flatten whole
  rw [records_flatten length_eq]

/-- The state that a record is for. -/
def recordState (record : List UInt8) : Nat :=
  numberOfBytes (record.take 2)

/-- The record has zeros for padding. -/
def Padded (record : List UInt8) : Prop :=
  record[3]? = some 0 ∧ record[4]? = some 0

instance (record : List UInt8) : Decidable (Padded record) :=
  inferInstanceAs (Decidable (_ ∧ _))

/-- The state of the first record is lower, or it is the same and the byte is lower. -/
def RecordBefore (first second : List UInt8) : Prop :=
  recordState first < recordState second ∨
    recordState first = recordState second ∧ first.getD 2 0 < second.getD 2 0

instance (first second : List UInt8) : Decidable (RecordBefore first second) :=
  inferInstanceAs (Decidable (_ ∨ _))

/-- The entry of a record, whatever its padding. -/
def entryOfRecord (record : List UInt8) : Entry where
  state := stateOfBytes (record.getD 0 0) (record.getD 1 0)
  symbol := record.getD 2 0
  next := stateOfBytes (record.getD 6 0) (record.getD 7 0)
  accept := record.getD 5 0

theorem exists_eq_of_length_eq {record : List UInt8} (length_eq : record.length = 8) :
    ∃ low high symbol keyPadding valuePadding accept nextLow nextHigh, record =
      [low, high, symbol, keyPadding, valuePadding, accept, nextLow, nextHigh] := by
  match record, length_eq with
  | [_, _, _, _, _, _, _, _], _ => exact ⟨_, _, _, _, _, _, _, _, rfl⟩

@[simp]
theorem length_encodeEntry (entry : Entry) : (encodeEntry entry).length = 8 :=
  rfl

theorem padded_encodeEntry (entry : Entry) : Padded (encodeEntry entry) :=
  ⟨rfl, rfl⟩

@[simp]
theorem entryOfRecord_encodeEntry (entry : Entry) :
    entryOfRecord (encodeEntry entry) = entry := by
  rcases entry with ⟨state, symbol, next, accept⟩
  change Entry.mk (stateOfBytes state.toUInt8 (state >>> 8).toUInt8) symbol
    (stateOfBytes next.toUInt8 (next >>> 8).toUInt8) accept = _
  rw [stateOfBytes_toUInt8, stateOfBytes_toUInt8]

theorem encodeEntry_entryOfRecord {record : List UInt8} (length_eq : record.length = 8)
    (padded : Padded record) : encodeEntry (entryOfRecord record) = record := by
  obtain ⟨_, _, _, _, _, _, _, _, rfl⟩ := exists_eq_of_length_eq length_eq
  obtain ⟨keyPadding, valuePadding⟩ := padded
  cases keyPadding
  cases valuePadding
  simp [encodeEntry, encodeKey, encodeValue, entryOfRecord, Entry.key, Entry.transition,
    stateBytes_stateOfBytes]

/-- The first three bytes of a record are its key. -/
theorem key_entryOfRecord_eq_iff {first second : List UInt8} (length_eq : first.length = 8)
    (length_eq2 : second.length = 8) :
    (entryOfRecord first).key = (entryOfRecord second).key ↔ first.take 3 = second.take 3 := by
  obtain ⟨low, high, symbol, _, _, _, _, _, rfl⟩ := exists_eq_of_length_eq length_eq
  obtain ⟨low2, high2, symbol2, _, _, _, _, _, rfl⟩ := exists_eq_of_length_eq length_eq2
  have state_iff : stateOfBytes low high = stateOfBytes low2 high2 ↔ low = low2 ∧ high = high2 := by
    constructor
    · intro same
      have bytes := congrArg stateBytes same
      rw [stateBytes_stateOfBytes, stateBytes_stateOfBytes] at bytes
      simpa using bytes
    · rintro ⟨rfl, rfl⟩
      rfl
  simp [entryOfRecord, Entry.key, state_iff, and_assoc]

theorem toNat_state_entryOfRecord {record : List UInt8} (length_eq : record.length = 8) :
    (entryOfRecord record).state.toNat = recordState record := by
  obtain ⟨_, _, _, _, _, _, _, _, rfl⟩ := exists_eq_of_length_eq length_eq
  exact toNat_stateOfBytes _ _

theorem before_entryOfRecord_iff {first second : List UInt8} (length_eq : first.length = 8)
    (length_eq2 : second.length = 8) :
    (entryOfRecord first).Before (entryOfRecord second) ↔ RecordBefore first second := by
  rw [Entry.Before, RecordBefore, UInt16.lt_iff_toNat_lt, ← UInt16.toNat_inj,
    toNat_state_entryOfRecord length_eq, toNat_state_entryOfRecord length_eq2]
  rfl

/-- One record does not stand both before and behind another. -/
theorem RecordBefore.not_before {first second : List UInt8} (before : RecordBefore first second) :
    ¬ RecordBefore second first := by
  intro behind
  rw [RecordBefore, UInt8.lt_iff_toNat_lt] at before behind
  omega

/-! ## Reading -/

/-- Reading a record in front of others takes one step. -/
theorem readRecords_append {record : List UInt8} (length_eq : record.length = 8)
    (size index : Nat) (table next : Table) (rest : List UInt8) :
    readRecords size index table (record ++ rest) = .ok next ↔
      Padded record ∧ ∃ middle, table.insert (entryOfRecord record) = .ok middle ∧
        readRecords size (index + 1) middle rest = .ok next := by
  obtain ⟨low, high, symbol, keyPadding, valuePadding, accept, nextLow, nextHigh, rfl⟩ :=
    exists_eq_of_length_eq length_eq
  have padded_iff : Padded [low, high, symbol, keyPadding, valuePadding, accept, nextLow, nextHigh]
      ↔ ¬ ((keyPadding != 0 || valuePadding != 0) = true) := by
    simp [Padded]
  have entry_eq : entryOfRecord
      [low, high, symbol, keyPadding, valuePadding, accept, nextLow, nextHigh] =
        ⟨stateOfBytes low high, symbol, stateOfBytes nextLow nextHigh, accept⟩ := rfl
  rw [padded_iff, entry_eq]
  simp only [List.cons_append, List.nil_append, readRecords]
  split
  · rename_i unpadded
    simp [unpadded]
  · rename_i padded
    rw [and_iff_right padded]
    cases table.insert ⟨stateOfBytes low high, symbol, stateOfBytes nextLow nextHigh, accept⟩ with
    | error second => simp
    | ok middle => simp

/-- Some records in a row are read when all are padded and their entries can be added. -/
theorem readRecords_flatten_eq_ok_iff {list : List (List UInt8)}
    (length_eq : ∀ record ∈ list, record.length = 8) (size index : Nat) (table next : Table) :
    readRecords size index table list.flatten = .ok next ↔
      (∀ record ∈ list, Padded record) ∧ table.insertMany (list.map entryOfRecord) = .ok next := by
  induction list generalizing index table with
  | nil => simp [readRecords, insertMany]
  | cons record list ih =>
      rw [List.forall_mem_cons] at length_eq
      rw [List.flatten_cons, readRecords_append length_eq.1, List.forall_mem_cons, List.map_cons,
        insertMany]
      simp only [ih length_eq.2]
      cases table.insert (entryOfRecord record) with
      | error second => simp
      | ok middle =>
          simp only [Except.ok.injEq, exists_eq_left']
          tauto

theorem decode_eq_ok_iff {bytes : List UInt8} {table : Table} : decode bytes = .ok table ↔
    8 ∣ bytes.length ∧ (∀ record ∈ records bytes, Padded record) ∧
      ofEntries ((records bytes).map entryOfRecord) = .ok table := by
  rw [decode, Nat.dvd_iff_mod_eq_zero]
  split
  · rename_i whole
    obtain ⟨list, length_eq, rfl⟩ := exists_eq_flatten (Nat.dvd_of_mod_eq_zero whole)
    rw [readRecords_flatten_eq_ok_iff length_eq, records_flatten length_eq, and_iff_right whole]
    rfl
  · rename_i cut
    simp [cut]

/-- Records share no key exactly when no two begin with the same three bytes. -/
theorem nodup_keys_records_iff {bytes : List UInt8} :
    (((records bytes).map entryOfRecord).map Entry.key).Nodup ↔
      ((records bytes).map (List.take 3)).Nodup := by
  rw [List.map_map, List.Nodup, List.Nodup, List.pairwise_map, List.pairwise_map]
  apply List.Pairwise.iff_of_mem
  intro first second firstMem secondMem
  exact not_congr (key_entryOfRecord_eq_iff (length_eq_of_mem_records firstMem)
    (length_eq_of_mem_records secondMem))

/-! ## Writing -/

theorem records_encode (table : Table) :
    records (encode table) = table.entries.map encodeEntry := by
  rw [encode, List.flatMap_def]
  apply records_flatten
  intro record recordMem
  obtain ⟨entry, -, rfl⟩ := List.mem_map.mp recordMem
  exact length_encodeEntry entry

theorem length_encode (table : Table) : (encode table).length = 8 * table.size := by
  rw [encode, List.length_flatMap]
  simp [Nat.mul_comm]

/-- Records are written in ascending order. -/
theorem pairwise_records_encode (table : Table) :
    (records (encode table)).Pairwise RecordBefore := by
  rw [records_encode, List.pairwise_map]
  apply table.pairwise_entries.imp
  intro first second before
  rw [← before_entryOfRecord_iff (length_encodeEntry first) (length_encodeEntry second),
    entryOfRecord_encodeEntry, entryOfRecord_encodeEntry]
  exact before

/-- What was written is read back. -/
theorem decode_encode (table : Table) : decode (encode table) = .ok table := by
  have entries_eq : (records (encode table)).map entryOfRecord = table.entries := by
    rw [records_encode, List.map_map]
    exact List.map_id'' entryOfRecord_encodeEntry _
  refine decode_eq_ok_iff.mpr ⟨⟨table.size, length_encode table⟩, ?_, ?_⟩
  · intro record recordMem
    rw [records_encode] at recordMem
    obtain ⟨entry, -, rfl⟩ := List.mem_map.mp recordMem
    exact padded_encodeEntry entry
  · rw [entries_eq, ofEntries_eq_ok_iff]

/-- The records that are written are those that were read. -/
theorem perm_records_of_decode {bytes : List UInt8} {table : Table}
    (decoded : decode bytes = .ok table) : (records (encode table)).Perm (records bytes) := by
  obtain ⟨-, padded, made⟩ := decode_eq_ok_iff.mp decoded
  have unchanged : ((records bytes).map entryOfRecord).map encodeEntry = records bytes := by
    rw [List.map_map]
    refine (List.map_congr_left ?_).trans (List.map_id _)
    intro record recordMem
    exact encodeEntry_entryOfRecord (length_eq_of_mem_records recordMem) (padded record recordMem)
  rw [records_encode, ← unchanged]
  exact ((ofEntries_eq_ok_iff.mp made).map encodeEntry).symm

/-- Reading accepts exactly padded records without a repeated key, takes back what was
written, and leaves to writing only to sort the records. -/
theorem decode_exact (bytes : List UInt8) (table : Table) :
    ((∃ made, decode bytes = .ok made) ↔
        8 ∣ bytes.length ∧ (∀ record ∈ records bytes, Padded record) ∧
          ((records bytes).map (List.take 3)).Nodup) ∧
      decode (encode table) = .ok table ∧ (encode table).length = 8 * table.size ∧
      (decode bytes = .ok table →
        (∃ sorted : List (List UInt8), sorted.Perm (records bytes) ∧ sorted.Pairwise RecordBefore ∧
          encode table = sorted.flatten) ∧
        (encode table = bytes ↔ (records bytes).Pairwise RecordBefore)) := by
  refine ⟨?_, decode_encode table, length_encode table, ?_⟩
  · simp only [decode_eq_ok_iff, exists_and_left, exists_ofEntries_eq_ok_iff,
      nodup_keys_records_iff]
  · intro decoded
    have isPerm := perm_records_of_decode decoded
    have sorted := pairwise_records_encode table
    have written : encode table = (records (encode table)).flatten :=
      (flatten_records ⟨table.size, length_encode table⟩).symm
    refine ⟨⟨_, isPerm, sorted, written⟩, ?_, ?_⟩
    · intro same
      rwa [same] at sorted
    · intro sorted2
      have whole := (decode_eq_ok_iff.mp decoded).1
      have same : records (encode table) = records bytes := by
        apply isPerm.eq_of_pairwise _ sorted sorted2
        intro first second _ _ before behind
        exact absurd behind before.not_before
      rw [written, same, flatten_records whole]

/-- State 256 follows state 1, although its low byte is lower.  Written in the other order,
their records are read but not written back as they were. -/
theorem decode_exact_low_byte_first :
    (∃ table, decode [1, 0, 98, 0, 0, 0, 0, 1, 0, 1, 97, 0, 0, 7, 1, 0] = .ok table ∧
        encode table = [1, 0, 98, 0, 0, 0, 0, 1, 0, 1, 97, 0, 0, 7, 1, 0]) ∧
      ∃ table, decode [0, 1, 97, 0, 0, 7, 1, 0, 1, 0, 98, 0, 0, 0, 0, 1] = .ok table ∧
        encode table ≠ [0, 1, 97, 0, 0, 7, 1, 0, 1, 0, 98, 0, 0, 0, 0, 1] := by
  constructor
  · obtain ⟨table, decoded⟩ := (decode_exact
      [1, 0, 98, 0, 0, 0, 0, 1, 0, 1, 97, 0, 0, 7, 1, 0] empty).1.mpr (by decide)
    exact ⟨table, decoded, ((decode_exact _ table).2.2.2 decoded).2.mpr (by decide)⟩
  · obtain ⟨table, decoded⟩ := (decode_exact
      [0, 1, 97, 0, 0, 7, 1, 0, 1, 0, 98, 0, 0, 0, 0, 1] empty).1.mpr (by decide)
    exact ⟨table, decoded, mt ((decode_exact _ table).2.2.2 decoded).2.mp (by decide)⟩

end ByteSignature.Table
