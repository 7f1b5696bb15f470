import ByteSignature.Limit
import ByteSignature.Table.Basic
import Mathlib.Data.List.Nodup

/-!
# Tables from entries

A list of entries makes a table exactly when no two of them share a state and a byte, and
then the table answers with exactly these entries.  Entries that are listed row by row, one
row for each state, share none as long as the states can be numbered in two bytes.
-/

namespace ByteSignature

theorem toUInt16_inj {first second : Nat} (firstLt : first < tableStateSpace)
    (secondLt : second < tableStateSpace) :
    first.toUInt16 = second.toUInt16 ↔ first = second := by
  constructor
  · intro eq
    have toNat_eq := congrArg UInt16.toNat eq
    rw [tableStateSpace] at firstLt secondLt
    simpa [Nat.mod_eq_of_lt, firstLt, secondLt] using toNat_eq
  · rintro rfl
    rfl

theorem toNat_toUInt16 {number : Nat} (lt : number < tableStateSpace) :
    number.toUInt16.toNat = number := by
  rw [tableStateSpace] at lt
  simpa using lt

namespace Table

variable {table next : Table} {entry : Entry} {entries : List Entry}

/-! ## One entry -/

theorem insert_eq_ok_iff : table.insert entry = .ok next ↔
    table.lookup entry.state entry.symbol = none ∧
      next = ⟨table.transitions.insert entry.key entry.transition⟩ := by
  have taken : table.transitions.contains entry.key =
      (table.lookup entry.state entry.symbol).isSome :=
    Std.ExtTreeMap.contains_eq_isSome_getElem?
  rw [insert, taken]
  cases table.lookup entry.state entry.symbol with
  | none => simp [eq_comm]
  | some transition => simp

theorem lookup_insert (inserted : table.insert entry = .ok next) (state : UInt16)
    (symbol : UInt8) : next.lookup state symbol =
      if entry.key = ⟨state, symbol⟩ then some entry.transition
      else table.lookup state symbol := by
  rw [(insert_eq_ok_iff.mp inserted).2, lookup, Std.ExtTreeMap.getElem?_insert]
  simp only [Std.LawfulEqCmp.compare_eq_iff_eq]
  rfl

theorem lookup_empty (state : UInt16) (symbol : UInt8) : empty.lookup state symbol = none :=
  Std.ExtTreeMap.getElem?_empty

/-! ## Many entries -/

/-- The entries fit into a table when their keys are new and differ. -/
def Fits (table : Table) (entries : List Entry) : Prop :=
  (entries.map Entry.key).Nodup ∧ ∀ entry ∈ entries, table.lookup entry.state entry.symbol = none

theorem fits_cons_iff (inserted : table.insert entry = .ok next) :
    Fits table (entry :: entries) ↔ Fits next entries := by
  have fresh := (insert_eq_ok_iff.mp inserted).1
  have lookup_eq (other : Entry) : next.lookup other.state other.symbol =
      if entry.key = other.key then some entry.transition
      else table.lookup other.state other.symbol := lookup_insert inserted _ _
  simp only [Fits, List.map_cons, List.nodup_cons, List.mem_cons, forall_eq_or_imp, fresh,
    true_and, lookup_eq, List.mem_map, not_exists, not_and]
  constructor
  · rintro ⟨⟨different, nodup⟩, new⟩
    refine ⟨nodup, ?_⟩
    intro other otherMem
    rw [if_neg fun eq => different other otherMem eq.symm]
    exact new other otherMem
  · rintro ⟨nodup, new⟩
    refine ⟨⟨?_, nodup⟩, ?_⟩
    · intro other otherMem eq
      have taken := new other otherMem
      rw [if_pos eq.symm] at taken
      cases taken
    · intro other otherMem
      have free := new other otherMem
      split at free
      · cases free
      · exact free

/-- Entries can be added exactly when they fit. -/
theorem exists_insertMany_eq_ok_iff :
    (∃ next, table.insertMany entries = .ok next) ↔ Fits table entries := by
  induction entries generalizing table with
  | nil => simp [insertMany, Fits]
  | cons entry entries ih =>
      rw [insertMany]
      cases inserted : table.insert entry with
      | ok next =>
          rw [fits_cons_iff inserted]
          exact ih
      | error duplicate =>
          have taken : ¬ table.lookup entry.state entry.symbol = none := by
            intro free
            rw [insert_eq_ok_iff.mpr ⟨free, rfl⟩] at inserted
            cases inserted
          simp [Fits, taken]

/-- A table answers with what it held before and with the added entries. -/
theorem lookup_insertMany (inserted : table.insertMany entries = .ok next) {state : UInt16}
    {symbol : UInt8} {transition : Transition} :
    next.lookup state symbol = some transition ↔
      table.lookup state symbol = some transition ∨
        Entry.ofPair (⟨state, symbol⟩, transition) ∈ entries := by
  induction entries generalizing table with
  | nil =>
      cases inserted
      simp
  | cons entry entries ih =>
      rw [insertMany] at inserted
      cases first : table.insert entry with
      | error duplicate =>
          rw [first] at inserted
          cases inserted
      | ok middle =>
          rw [first] at inserted
          rw [ih inserted, lookup_insert first]
          have fresh := (insert_eq_ok_iff.mp first).1
          rcases entry with ⟨entryState, entrySymbol, entryNext, entryAccept⟩
          rcases transition with ⟨targetNext, targetAccept⟩
          simp only [Entry.key, Entry.transition, Entry.ofPair, Key.mk.injEq, List.mem_cons,
            Entry.mk.injEq] at fresh ⊢
          split
          · rename_i same
            rcases same with ⟨rfl, rfl⟩
            simp [fresh, eq_comm]
          · rename_i different
            have ne : ¬ (state = entryState ∧ symbol = entrySymbol) := fun eq =>
              different ⟨eq.1.symm, eq.2.symm⟩
            tauto

/-- A list of entries makes a table exactly when no two share a state and a byte. -/
theorem exists_ofEntries_eq_ok_iff :
    (∃ table, ofEntries entries = .ok table) ↔ (entries.map Entry.key).Nodup := by
  rw [ofEntries, exists_insertMany_eq_ok_iff, Fits]
  simp [lookup_empty]

/-- A table answers with its entries. -/
theorem lookup_ofEntries (made : ofEntries entries = .ok table) {state : UInt16} {symbol : UInt8}
    {transition : Transition} : table.lookup state symbol = some transition ↔
      Entry.ofPair (⟨state, symbol⟩, transition) ∈ entries := by
  rw [lookup_insertMany made, lookup_empty]
  simp

/-! ## Rows -/

/-- Rows of different states, each with one entry for a byte, share no key. -/
theorem nodup_keys_flatMap {α : Type} {rows : List α} {entriesOf : α → List Entry}
    (stateOf : α → Nat) (nodup : (rows.map stateOf).Nodup)
    (lt : ∀ row ∈ rows, stateOf row < tableStateSpace)
    (state_eq : ∀ row ∈ rows, ∀ entry ∈ entriesOf row, entry.state = (stateOf row).toUInt16)
    (symbols : ∀ row ∈ rows, ((entriesOf row).map Entry.symbol).Nodup) :
    ((rows.flatMap entriesOf).map Entry.key).Nodup := by
  rw [List.map_flatMap, List.nodup_flatMap]
  constructor
  · intro row rowMem
    have distinct := symbols row rowMem
    rw [List.Nodup, List.pairwise_map] at distinct ⊢
    apply distinct.imp
    intro first second ne eq
    exact ne (Key.mk.inj eq).2
  · rw [List.Nodup, List.pairwise_map] at nodup
    apply nodup.imp_of_mem
    intro first second firstMem secondMem ne
    apply List.disjoint_left.mpr
    intro key keyMem keyMem2
    rcases List.mem_map.mp keyMem with ⟨entry, entryMem, rfl⟩
    rcases List.mem_map.mp keyMem2 with ⟨entry2, entryMem2, eq⟩
    have sameState := (Key.mk.inj eq).1
    rw [state_eq first firstMem entry entryMem, state_eq second secondMem entry2 entryMem2,
      toUInt16_inj (lt second secondMem) (lt first firstMem)] at sameState
    exact ne sameState.symm

end Table

end ByteSignature
