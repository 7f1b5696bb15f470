import ByteSignature.Proofs.Scan.Prefix
import ByteSignature.Proofs.Table.Dense

/-!
# Dense and ordered tables are interchangeable

A dense table answers as the table it is made from, so every reader of tables may take
either.  A scan of the dense table is the loop over the ordered one that starts over where
no entry leads on.  A strict walk ends with the flag of the last transition of the ordered
table, and the test of a whole input is the strict walk over the input and the end marker.
-/

namespace ByteSignature

namespace Table

/-- Where a byte leads from a state.  Without an entry it leads to the start. -/
def restartStep (table : Table) (state : UInt16) (symbol : UInt8) : UInt16 :=
  nextOrStart (table.lookup state symbol)

/-- The loop that starts over where no entry leads on, up to the first transition that
carries a pattern id.  The first of the bytes has the given offset. -/
def restartScanFrom (table : Table) : (state : UInt16) → (offset : Nat) → List UInt8 →
    Option ScanMatch
  | _, _, [] => none
  | state, offset, symbol :: rest =>
      match (table.lookup state symbol).filter Transition.isAccepting with
      | some transition => some ⟨transition.accept, offset, transition.next⟩
      | none => table.restartScanFrom (table.restartStep state symbol) (offset + 1) rest

/-- The loop over a payload, from the start. -/
def restartScan (table : Table) (payload : List UInt8) : Option ScanMatch :=
  table.restartScanFrom 0 0 payload

/-- The flag of the last transition of a walk, unless it is zero. -/
def lastFlag (last : Option Transition) : Option UInt8 :=
  (last.map Transition.accept).filter fun accept => accept ≠ 0

@[simp]
theorem lastFlag_some (transition : Transition) : lastFlag (some transition) =
    if transition.accept = 0 then none else some transition.accept := by
  by_cases unflagged : transition.accept = 0 <;> simp [lastFlag, Option.filter, unflagged]

/-! ## Walks that end with a given byte -/

theorem walkFrom_append_singleton (table : Table) (state : UInt16) (last : Option Transition)
    (input : List UInt8) (symbol : UInt8) :
    table.walkFrom state last (input ++ [symbol]) =
      (table.stateAfter state input).bind fun reached => table.lookup reached symbol := by
  induction input generalizing state last with
  | nil =>
      rw [List.nil_append, walkFrom, stateAfter, Option.bind_some]
      cases table.lookup state symbol <;> rfl
  | cons first rest ih =>
      rw [List.cons_append, walkFrom, stateAfter]
      cases table.lookup state first with
      | none => rfl
      | some transition => exact ih transition.next (some transition)

/-- A whole input is accepted with the flag behind the end marker. -/
theorem acceptsAnchored_eq_lastFlag (table : Table) (input : List UInt8) :
    table.acceptsAnchored input = lastFlag (table.walk (input ++ [endMarker])) := by
  rw [walk, walkFrom_append_singleton, acceptsAnchored]
  cases table.stateAfter 0 input with
  | none => rfl
  | some state =>
      rw [Option.bind_some]
      dsimp only
      cases table.lookup state endMarker with
      | none => rfl
      | some transition => simp [Transition.isAccepting]

end Table

namespace DenseTable

open Table

/-- From every state the scan is the loop over the ordered table. -/
theorem scanFrom_ofTable (table : Table) (state : UInt16) (offset : Nat)
    (payload : List UInt8) :
    (ofTable table).scanFrom state offset payload =
      table.restartScanFrom state offset payload := by
  induction payload generalizing state offset with
  | nil => rfl
  | cons symbol rest ih =>
      rw [scanFrom, restartScanFrom, restartStep, lookup_ofTable]
      cases table.lookup state symbol with
      | none => exact ih 0 (offset + 1)
      | some transition =>
          by_cases accepting : transition.isAccepting = true
          · simp [Option.filter, accepting]
          · simp only [Option.filter, accepting]
            exact ih transition.next (offset + 1)

/-- A strict walk keeps the flag of the transition taken before, which is zero in front of
the first. -/
theorem lastAccept_ofTable (table : Table) (state : UInt16) (last : Option Transition)
    (input : List UInt8) :
    (ofTable table).lastAccept state ((last.map Transition.accept).getD 0) input =
      lastFlag (table.walkFrom state last input) := by
  induction input generalizing state last with
  | nil =>
      cases last with
      | none => rfl
      | some transition => exact (lastFlag_some transition).symm
  | cons symbol rest ih =>
      rw [lastAccept, walkFrom, lookup_ofTable]
      cases table.lookup state symbol with
      | none => rfl
      | some transition => exact ih transition.next (some transition)

theorem acceptsExact_ofTable (table : Table) (input : List UInt8) :
    (ofTable table).acceptsExact input = lastFlag (table.walk input) :=
  lastAccept_ofTable table 0 none input

end DenseTable

/-- A dense table is filled within its cells and answers as the ordered table with as many
entries.  So no reader of tables can tell the two apart: not a scan to any depth, not a
strict walk, and not the test of a whole input. -/
theorem dense_interchangeable (table : Table) :
    table.entries.foldlM DenseTable.fill? (DenseTable.noCells table) =
        some (DenseTable.ofTable table).cells ∧
      (∀ state symbol,
        (DenseTable.ofTable table).lookup state symbol = table.lookup state symbol) ∧
      (DenseTable.ofTable table).size = table.size ∧
      (∀ payload, (DenseTable.ofTable table).scan none payload = table.restartScan payload) ∧
      (∀ depth payload, (DenseTable.ofTable table).scan (some depth) payload =
        table.restartScan (payload.take depth)) ∧
      (∀ input, (DenseTable.ofTable table).acceptsExact input =
        Table.lastFlag (table.walk input)) ∧
      ∀ input, table.acceptsAnchored input =
        (DenseTable.ofTable table).acceptsExact (input ++ [endMarker]) := by
  refine ⟨DenseTable.foldlM_fill?_entries table, DenseTable.lookup_ofTable table,
    DenseTable.size_ofTable table, ?_, ?_, DenseTable.acceptsExact_ofTable table, ?_⟩
  · intro payload
    exact DenseTable.scanFrom_ofTable table 0 0 payload
  · intro depth payload
    exact DenseTable.scanFrom_ofTable table 0 0 (payload.take depth)
  · intro input
    rw [Table.acceptsAnchored_eq_lastFlag, DenseTable.acceptsExact_ofTable]

/-- A table with two entries, at the first state and at the last one that a number can name, which
leads back to itself. -/
def sparseTable : Table :=
  ⟨((∅ : Std.ExtTreeMap Table.Key Table.Transition Table.Key.compare).insert
    ⟨0, 97⟩ ⟨65535, 0⟩).insert ⟨65535, 98⟩ ⟨65535, 9⟩⟩

/-- Its dense form has cells for all states.  In `babb` a match ends at offset 2, a depth of two
bytes does not come to it, and as whole inputs `abb` has a flag while `ba` and nothing have none. -/
theorem dense_interchangeable_sparse :
    (DenseTable.ofTable sparseTable).size = 2 ∧
      (DenseTable.ofTable sparseTable).lookup 65535 98 = some ⟨65535, 9⟩ ∧
      (DenseTable.ofTable sparseTable).lookup 256 98 = none ∧
      (DenseTable.ofTable sparseTable).scan none [98, 97, 98, 98] = some ⟨9, 2, 65535⟩ ∧
      (DenseTable.ofTable sparseTable).scan (some 2) [98, 97, 98, 98] = none ∧
      (DenseTable.ofTable sparseTable).acceptsExact [97, 98, 98] = some 9 ∧
      (DenseTable.ofTable sparseTable).acceptsExact [98, 97] = none ∧
      (DenseTable.ofTable sparseTable).acceptsExact [] = none ∧
      sparseTable.acceptsAnchored [97, 98] = none := by
  obtain ⟨-, lookup_eq, size_eq, scan_eq, limited_eq, exact_eq, -⟩ :=
    dense_interchangeable sparseTable
  rw [size_eq, lookup_eq, lookup_eq, scan_eq, limited_eq, exact_eq, exact_eq, exact_eq]
  decide +kernel

end ByteSignature
