import ByteSignature.Table.Basic

/-!
# Dense tables

A dense table has one cell for every state below the state count and every byte.  It
answers the same questions as the table it is made from, in constant time.
-/

namespace ByteSignature

/-- The cells of all states, 256 for each. -/
structure DenseTable where
  cells : Array (Option Table.Transition)
  stateCount : Nat

namespace DenseTable

/-- The place of the cell for a state and a byte. -/
def cellIndex (state : UInt16) (symbol : UInt8) : Nat :=
  256 * state.toNat + symbol.toNat

/-- Fill the cell of an entry. -/
def fill (cells : Array (Option Table.Transition)) (entry : Table.Entry) :
    Array (Option Table.Transition) :=
  cells.setIfInBounds (cellIndex entry.state entry.symbol) (some entry.transition)

/-- The dense form of a table. -/
def ofTable (table : Table) : DenseTable where
  cells := table.entries.foldl fill (Array.replicate (256 * table.stateCount) none)
  stateCount := table.stateCount

/-- The entry for a state and a byte. -/
def lookup (dense : DenseTable) (state : UInt16) (symbol : UInt8) :
    Option Table.Transition :=
  dense.cells.getD (cellIndex state symbol) none

/-- The number of filled cells. -/
def size (dense : DenseTable) : Nat :=
  dense.cells.countP Option.isSome

/-- No cell is filled. -/
def isEmpty (dense : DenseTable) : Bool :=
  dense.size == 0

/-- Different entries have different cells. -/
theorem cellIndex_inj {state state2 : UInt16} {symbol symbol2 : UInt8} :
    cellIndex state symbol = cellIndex state2 symbol2 ↔
      state = state2 ∧ symbol = symbol2 := by
  constructor
  · intro h
    have hsymbol := symbol.toNat_lt
    have hsymbol2 := symbol2.toNat_lt
    simp only [cellIndex] at h
    exact ⟨UInt16.toNat.inj (by omega), UInt8.toNat.inj (by omega)⟩
  · rintro ⟨rfl, rfl⟩
    rfl

end DenseTable

end ByteSignature
