import ByteSignature.Proofs.Table.Extent
import ByteSignature.Table.Dense

/-!
# Dense tables answer as their tables

Every entry of a table has a cell of its own within the state count, so filling the cells
entry by entry never leaves them and leaves exactly the transitions of the table.
-/

namespace ByteSignature

namespace DenseTable

open Table

/-- Filling leaves the cells of other keys alone. -/
theorem getElem?_foldl_fill_of_notMem {entries : List Entry} {state : UInt16} {symbol : UInt8}
    (notMem : ⟨state, symbol⟩ ∉ entries.map Entry.key) (cells : Array (Option Transition)) :
    (entries.foldl fill cells)[cellIndex state symbol]? = cells[cellIndex state symbol]? := by
  induction entries generalizing cells with
  | nil => rfl
  | cons entry entries ih =>
      rw [List.map_cons, List.mem_cons, not_or] at notMem
      have ne : cellIndex entry.state entry.symbol ≠ cellIndex state symbol := by
        intro same
        rcases cellIndex_inj.mp same with ⟨rfl, rfl⟩
        exact notMem.1 rfl
      rw [List.foldl_cons, ih notMem.2, fill, Array.getElem?_setIfInBounds_ne ne]

/-- Filling puts every entry into its cell. -/
theorem getElem?_foldl_fill_of_mem {entries : List Entry}
    (nodup : (entries.map Entry.key).Nodup) {cells : Array (Option Transition)} {entry : Entry}
    (entryMem : entry ∈ entries) (inside : cellIndex entry.state entry.symbol < cells.size) :
    (entries.foldl fill cells)[cellIndex entry.state entry.symbol]? =
      some (some entry.transition) := by
  induction entries generalizing cells with
  | nil => cases entryMem
  | cons head rest ih =>
      rw [List.map_cons, List.nodup_cons] at nodup
      rw [List.foldl_cons]
      rcases List.mem_cons.mp entryMem with rfl | later
      · rw [getElem?_foldl_fill_of_notMem nodup.1, fill,
          Array.getElem?_setIfInBounds_self_of_lt inside]
      · apply ih nodup.2 later
        rw [fill, Array.size_setIfInBounds]
        exact inside

theorem cellIndex_lt {state : UInt16} {count : Nat} (lt : state.toNat < count)
    (symbol : UInt8) : cellIndex state symbol < 256 * count := by
  have symbolLt := symbol.toNat_lt
  rw [cellIndex]
  omega

/-- A dense table answers as the table it is made from. -/
theorem lookup_ofTable (table : Table) (state : UInt16) (symbol : UInt8) :
    (ofTable table).lookup state symbol = table.lookup state symbol := by
  rw [lookup, ofTable, Array.getD_eq_getD_getElem?]
  cases found : table.lookup state symbol with
  | none =>
      have notMem : ⟨state, symbol⟩ ∉ table.entries.map Entry.key := by
        intro keyMem
        rcases List.mem_map.mp keyMem with ⟨entry, entryMem, same⟩
        obtain ⟨rfl, rfl⟩ := Key.mk.inj same
        rw [mem_entries_iff.mp entryMem] at found
        cases found
      rw [getElem?_foldl_fill_of_notMem notMem, Array.getElem?_replicate]
      split <;> rfl
  | some transition =>
      have entryMem : Entry.ofPair (⟨state, symbol⟩, transition) ∈ table.entries :=
        mem_entries_iff.mpr found
      have inside : cellIndex state symbol <
          (Array.replicate (256 * table.stateCount) (none : Option Transition)).size := by
        rw [Array.size_replicate]
        exact cellIndex_lt (state_lt_stateCount entryMem) symbol
      have filled := getElem?_foldl_fill_of_mem table.nodup_entries entryMem inside
      exact congrArg (Option.getD · none) filled

/-! ## Filling stays within the cells -/

/-- Fill the cell of an entry, unless it lies outside. -/
def fill? (cells : Array (Option Transition)) (entry : Entry) :
    Option (Array (Option Transition)) :=
  if inside : cellIndex entry.state entry.symbol < cells.size then
    some (cells.set (cellIndex entry.state entry.symbol) (some entry.transition) inside)
  else
    none

theorem size_fill (cells : Array (Option Transition)) (entry : Entry) :
    (fill cells entry).size = cells.size :=
  Array.size_setIfInBounds

theorem fill?_eq_some {cells : Array (Option Transition)} {entry : Entry}
    (inside : cellIndex entry.state entry.symbol < cells.size) :
    fill? cells entry = some (fill cells entry) := by
  rw [fill?, dif_pos inside, fill, Array.setIfInBounds, dif_pos inside]

theorem foldlM_fill?_eq_some {entries : List Entry} {cells : Array (Option Transition)}
    (inside : ∀ entry ∈ entries, cellIndex entry.state entry.symbol < cells.size) :
    entries.foldlM fill? cells = some (entries.foldl fill cells) := by
  induction entries generalizing cells with
  | nil => rfl
  | cons entry entries ih =>
      rw [List.forall_mem_cons] at inside
      rw [List.foldlM_cons, fill?_eq_some inside.1, List.foldl_cons]
      apply ih
      rw [size_fill]
      exact inside.2

/-- The cells that a dense table starts with. -/
def noCells (table : Table) : Array (Option Transition) :=
  Array.replicate (256 * table.stateCount) none

theorem cellIndex_lt_size_noCells {table : Table} {entry : Entry}
    (entryMem : entry ∈ table.entries) :
    cellIndex entry.state entry.symbol < (noCells table).size := by
  rw [noCells, Array.size_replicate]
  exact cellIndex_lt (state_lt_stateCount entryMem) entry.symbol

/-- Each cell that is filled is one of the cells. -/
theorem foldlM_fill?_entries (table : Table) :
    table.entries.foldlM fill? (noCells table) = some (ofTable table).cells :=
  foldlM_fill?_eq_some fun _ => cellIndex_lt_size_noCells

/-! ## The number of filled cells -/

/-- Filling a cell that is not filled adds one to their number. -/
theorem countP_fill {cells : Array (Option Transition)} {entry : Entry}
    (free : cells[cellIndex entry.state entry.symbol]? = some none) :
    (fill cells entry).countP Option.isSome = cells.countP Option.isSome + 1 := by
  obtain ⟨inside, isNone⟩ := Array.getElem?_eq_some_iff.mp free
  rw [fill, Array.setIfInBounds, dif_pos inside, Array.countP_set, isNone]
  rfl

theorem countP_foldl_fill {entries : List Entry} {cells : Array (Option Transition)}
    (nodup : (entries.map Entry.key).Nodup)
    (free : ∀ entry ∈ entries, cells[cellIndex entry.state entry.symbol]? = some none) :
    (entries.foldl fill cells).countP Option.isSome =
      cells.countP Option.isSome + entries.length := by
  induction entries generalizing cells with
  | nil => rfl
  | cons entry entries ih =>
      rw [List.map_cons, List.nodup_cons] at nodup
      rw [List.forall_mem_cons] at free
      have stillFree : ∀ other ∈ entries,
          (fill cells entry)[cellIndex other.state other.symbol]? = some none := by
        intro other otherMem
        have different : (⟨other.state, other.symbol⟩ : Key) ∉ [entry].map Entry.key := by
          intro keyMem
          rw [← List.mem_singleton.mp keyMem] at nodup
          exact nodup.1 (List.mem_map_of_mem otherMem)
        rw [← free.2 other otherMem]
        exact getElem?_foldl_fill_of_notMem different cells
      rw [List.foldl_cons, ih nodup.2 stillFree, countP_fill free.1, List.length_cons]
      omega

/-- A dense table has as many filled cells as its table has entries. -/
theorem size_ofTable (table : Table) : (ofTable table).size = table.size := by
  have free : ∀ entry ∈ table.entries,
      (noCells table)[cellIndex entry.state entry.symbol]? = some none := by
    intro entry entryMem
    have inside := cellIndex_lt_size_noCells entryMem
    rw [noCells, Array.size_replicate] at inside
    rw [noCells, Array.getElem?_replicate, if_pos inside]
  calc (ofTable table).size
      = (noCells table).countP Option.isSome + table.entries.length :=
        countP_foldl_fill table.nodup_entries free
    _ = table.size := by rw [noCells, Array.countP_replicate, length_entries]; simp

end DenseTable

end ByteSignature
