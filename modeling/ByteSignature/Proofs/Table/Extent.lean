import ByteSignature.Proofs.Table.Ordered

/-!
# How far the states of a table extend

A table knows its states only from the numbers on its entries, and counts as far as the
largest of them.  So entries that stay below a bound, and lead to every number below it but
the start, make a table with as many states as the bound.
-/

namespace ByteSignature.Table

variable {table : Table} {entries : List Entry}

/-! ## Counting -/

/-- The state count of some entries, from a count that is reached already. -/
def countFrom (count : Nat) (entries : List Entry) : Nat :=
  entries.foldl (fun count entry => max count (max entry.state.toNat entry.next.toNat + 1)) count

theorem le_countFrom (count : Nat) (entries : List Entry) : count ≤ countFrom count entries := by
  induction entries generalizing count with
  | nil => exact Nat.le_refl count
  | cons entry entries ih => exact Nat.le_trans (Nat.le_max_left _ _) (ih _)

theorem lt_countFrom {entry : Entry} {entries : List Entry} (entryMem : entry ∈ entries)
    (count : Nat) : max entry.state.toNat entry.next.toNat < countFrom count entries := by
  induction entries generalizing count with
  | nil => cases entryMem
  | cons head rest ih =>
      rcases List.mem_cons.mp entryMem with rfl | later
      · exact Nat.lt_of_lt_of_le (Nat.le_max_right _ _) (le_countFrom _ rest)
      · exact ih later _

theorem countFrom_le {count bound : Nat} {entries : List Entry} (countLe : count ≤ bound)
    (lt : ∀ entry ∈ entries, entry.state.toNat < bound ∧ entry.next.toNat < bound) :
    countFrom count entries ≤ bound := by
  induction entries generalizing count with
  | nil => exact countLe
  | cons entry entries ih =>
      rw [List.forall_mem_cons] at lt
      apply ih _ lt.2
      exact Nat.max_le.mpr ⟨countLe, Nat.succ_le_of_lt (Nat.max_lt.mpr lt.1)⟩

/-- The start counts. -/
theorem stateCount_pos (table : Table) : 0 < table.stateCount :=
  le_countFrom 1 table.entries

/-- The state count is beyond every state that has an entry. -/
theorem state_lt_stateCount {entry : Entry} (entryMem : entry ∈ table.entries) :
    entry.state.toNat < table.stateCount :=
  Nat.lt_of_le_of_lt (Nat.le_max_left _ _) (lt_countFrom entryMem 1)

/-- The state count is beyond every state that an entry leads to. -/
theorem next_lt_stateCount {entry : Entry} (entryMem : entry ∈ table.entries) :
    entry.next.toNat < table.stateCount :=
  Nat.lt_of_le_of_lt (Nat.le_max_right _ _) (lt_countFrom entryMem 1)

/-! ## Spanning -/

/-- The numbers on some entries are below a count, and every number below it but that of the
start is entered. -/
structure Spans (entries : List Entry) (count : Nat) : Prop where
  lt : ∀ entry ∈ entries, entry.state.toNat < count ∧ entry.next.toNat < count
  entered : ∀ state, 0 < state → state < count → ∃ entry ∈ entries, entry.next.toNat = state

/-- Only the start can go without an entry that leads to it. -/
theorem Spans.lt_stateCount {count : Nat} (spans : Spans table.entries count) {state : Nat}
    (stateLt : state < count) : state < table.stateCount := by
  rcases Nat.eq_zero_or_pos state with rfl | pos
  · exact table.stateCount_pos
  · obtain ⟨entry, entryMem, rfl⟩ := spans.entered state pos stateLt
    exact next_lt_stateCount entryMem

theorem Spans.stateCount_eq {count : Nat} (spans : Spans table.entries count)
    (pos : 0 < count) : table.stateCount = count := by
  apply Nat.le_antisymm
  · exact countFrom_le pos spans.lt
  · exact Nat.le_of_not_lt fun fewer => Nat.lt_irrefl _ (spans.lt_stateCount fewer)

/-- A table spans what its entries do, in whatever order it was made of them. -/
theorem Spans.of_ofEntries {count : Nat} (spans : Spans entries count)
    (made : ofEntries entries = .ok table) : Spans table.entries count where
  lt entry entryMem :=
    spans.lt entry ((ofEntries_eq_ok_iff.mp made).mem_iff.mpr entryMem)
  entered state pos stateLt := by
    obtain ⟨entry, entryMem, next_eq⟩ := spans.entered state pos stateLt
    exact ⟨entry, (ofEntries_eq_ok_iff.mp made).mem_iff.mp entryMem, next_eq⟩

end ByteSignature.Table
