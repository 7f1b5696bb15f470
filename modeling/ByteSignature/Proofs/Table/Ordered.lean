import ByteSignature.Proofs.Table.Entries

/-!
# A table is its ordered entries

The entries of a table are listed in ascending order of state and byte, each key once.
Tables that answer alike are equal.  So some entries make a given table exactly when they
are its entries in some order.
-/

namespace ByteSignature.Table

variable {table table2 : Table} {entries : List Entry}

theorem mem_entries_iff {entry : Entry} :
    entry ∈ table.entries ↔ table.lookup entry.state entry.symbol = some entry.transition := by
  rw [Table.entries, List.mem_map, lookup, ← Std.ExtTreeMap.mem_toList_iff_getElem?_eq_some]
  constructor
  · rintro ⟨pair, pairMem, rfl⟩
    exact pairMem
  · intro pairMem
    exact ⟨_, pairMem, rfl⟩

/-- No two entries share a state and a byte. -/
theorem nodup_entries (table : Table) : (table.entries.map Entry.key).Nodup := by
  have distinct := table.transitions.distinct_keys_toList
  rw [Table.entries, List.map_map, List.Nodup, List.pairwise_map]
  apply distinct.imp
  intro first second different same
  apply different
  rw [Std.LawfulEqCmp.compare_eq_iff_eq]
  exact same

@[simp]
theorem length_entries (table : Table) : table.entries.length = table.size := by
  rw [Table.entries, List.length_map, Std.ExtTreeMap.length_toList, size]

/-! ## The order of entries -/

/-- The state of the first entry is lower, or it is the same and the byte is lower. -/
def Entry.Before (first second : Entry) : Prop :=
  first.state < second.state ∨ first.state = second.state ∧ first.symbol < second.symbol

theorem Entry.Before.asymm {first second : Entry} (before : first.Before second) :
    ¬ second.Before first := by
  rcases before with lower | ⟨state_eq, lower⟩
  · rintro (lower2 | ⟨state_eq, -⟩)
    · exact UInt16.lt_asymm lower lower2
    · exact UInt16.ne_of_lt lower state_eq.symm
  · rintro (lower2 | ⟨-, lower2⟩)
    · exact UInt16.ne_of_lt lower2 state_eq.symm
    · exact UInt8.lt_asymm lower lower2

theorem Key.compare_eq_lt_iff {first second : Key} : Key.compare first second = .lt ↔
    first.state < second.state ∨ first.state = second.state ∧ first.symbol < second.symbol := by
  rw [Key.compare, compareLex, compareOn, compareOn, Ordering.then_eq_lt,
    Std.compare_eq_lt, Std.LawfulEqCmp.compare_eq_iff_eq, Std.compare_eq_lt]

/-- Entries are listed in ascending order. -/
theorem pairwise_entries (table : Table) : table.entries.Pairwise Entry.Before := by
  rw [Table.entries, List.pairwise_map]
  apply table.transitions.ordered_keys_toList.imp
  intro first second ascending
  exact Key.compare_eq_lt_iff.mp ascending

/-! ## Tables from their entries -/

/-- A table is determined by its answers. -/
theorem eq_of_lookup_eq
    (same : ∀ state symbol, table.lookup state symbol = table2.lookup state symbol) :
    table = table2 := by
  rcases table with ⟨transitions⟩
  rcases table2 with ⟨transitions2⟩
  congr 1
  apply Std.ExtTreeMap.ext_getElem?
  intro key
  exact same key.state key.symbol

/-- Some entries make a table exactly when they are the entries of the table in some
order. -/
theorem ofEntries_eq_ok_iff : ofEntries entries = .ok table ↔ entries.Perm table.entries := by
  constructor
  · intro made
    have nodup := exists_ofEntries_eq_ok_iff.mp ⟨table, made⟩
    rw [List.perm_ext_iff_of_nodup nodup.of_map table.nodup_entries.of_map]
    intro entry
    rw [mem_entries_iff, lookup_ofEntries made]
    rfl
  · intro isPerm
    have nodup := (isPerm.map Entry.key).nodup_iff.mpr table.nodup_entries
    obtain ⟨table2, made⟩ := exists_ofEntries_eq_ok_iff.mpr nodup
    have same : table2 = table := by
      apply eq_of_lookup_eq
      intro state symbol
      apply Option.ext
      intro transition
      rw [lookup_ofEntries made, isPerm.mem_iff, mem_entries_iff]
      rfl
    rw [made, same]

end ByteSignature.Table
