import ByteSignature.Scan.Basic

/-!
# Scanning a prefix of a payload

Behind the first bytes of a payload a scan is in some state, unless it has ended with a match
there.  From this state it goes on with whatever follows, so what it finds in a prefix does
not depend on the rest.  A depth cuts a prefix off: a limited scan finds what the unlimited one
finds, as long as it lies within the depth.
-/

namespace ByteSignature

/-- The state behind a byte that takes this transition.  Without one it is the start. -/
def Table.nextOrStart : Option Table.Transition → UInt16
  | none => 0
  | some transition => transition.next

namespace DenseTable

open Table (nextOrStart)

/-- The state behind some bytes that hold no match. -/
def stateBehind (dense : DenseTable) (state : UInt16) (payload : List UInt8) : UInt16 :=
  payload.foldl (fun state symbol => nextOrStart (dense.lookup state symbol)) state

variable {dense : DenseTable} {state : UInt16} {offset depth : Nat}
  {payload first second : List UInt8} {hit : ScanMatch}

/-- A scan of a longer payload is that of its first part and, when nothing is found there, goes
on in the state behind it. -/
theorem scanFrom_append (dense : DenseTable) (state : UInt16) (offset : Nat)
    (first second : List UInt8) :
    dense.scanFrom state offset (first ++ second) =
      (dense.scanFrom state offset first).or
        (dense.scanFrom (dense.stateBehind state first) (offset + first.length) second) := by
  induction first generalizing state offset with
  | nil => rfl
  | cons symbol first ih =>
      have length_eq : offset + (symbol :: first).length = offset + 1 + first.length := by
        rw [List.length_cons, Nat.add_assoc, Nat.add_comm 1]
      rw [List.cons_append, length_eq, stateBehind, List.foldl_cons, ← stateBehind]
      cases found : dense.lookup state symbol with
      | none =>
          simp only [scanFrom, found, nextOrStart]
          exact ih 0 (offset + 1)
      | some transition =>
          simp only [scanFrom, found, nextOrStart]
          split
          · rfl
          · exact ih transition.next (offset + 1)

/-- A match ends at one of the bytes that are scanned. -/
theorem offset_le_and_stop_lt_of_scanFrom
    (scanned : dense.scanFrom state offset payload = some hit) :
    offset ≤ hit.stop ∧ hit.stop < offset + payload.length := by
  induction payload generalizing state offset with
  | nil => cases scanned
  | cons symbol rest ih =>
      have later : ∀ {next : UInt16}, dense.scanFrom next (offset + 1) rest = some hit →
          offset ≤ hit.stop ∧ hit.stop < offset + (symbol :: rest).length := by
        intro next scannedRest
        have bounds := ih scannedRest
        rw [List.length_cons]
        omega
      rw [scanFrom] at scanned
      split at scanned
      · exact later scanned
      · split at scanned
        · cases scanned
          exact ⟨Nat.le_refl offset, Nat.lt_add_of_pos_right (Nat.succ_pos _)⟩
        · exact later scanned

/-- A scan of a longer payload from the start. -/
theorem scan_append (dense : DenseTable) (first second : List UInt8) :
    dense.scan none (first ++ second) =
      (dense.scan none first).or
        (dense.scanFrom (dense.stateBehind 0 first) first.length second) := by
  have split := dense.scanFrom_append 0 0 first second
  rwa [Nat.zero_add] at split

theorem stop_lt_of_scan (scanned : dense.scan none payload = some hit) :
    hit.stop < payload.length := by
  have bounds := offset_le_and_stop_lt_of_scanFrom scanned
  rw [Nat.zero_add] at bounds
  exact bounds.2

/-- What is found in the first part stays found. -/
theorem scan_append_of_eq_some (found : dense.scan none first = some hit) (second : List UInt8) :
    dense.scan none (first ++ second) = some hit := by
  rw [scan_append, found, Option.some_or]

/-- What is not found in the first part ends behind it. -/
theorem length_le_stop_of_scan_append (missing : dense.scan none first = none)
    (found : dense.scan none (first ++ second) = some hit) : first.length ≤ hit.stop := by
  rw [scan_append, missing, Option.none_or] at found
  exact (offset_le_and_stop_lt_of_scanFrom found).1

/-- A limited scan finds what the unlimited one finds within the depth. -/
theorem scan_some (dense : DenseTable) (depth : Nat) (payload : List UInt8) :
    dense.scan (some depth) payload =
      (dense.scan none payload).filter fun hit => hit.stop < depth := by
  have limited : dense.scan (some depth) payload = dense.scan none (payload.take depth) := rfl
  have parts : payload.take depth ++ payload.drop depth = payload := List.take_append_drop _ _
  rw [limited]
  cases seen : dense.scan none (payload.take depth) with
  | some hit =>
      have whole := scan_append_of_eq_some seen (payload.drop depth)
      have inside : hit.stop < depth :=
        Nat.lt_of_lt_of_le (stop_lt_of_scan seen) (List.length_take_le depth payload)
      rw [parts] at whole
      rw [whole, Option.filter_some, if_pos (decide_eq_true inside)]
  | none =>
      cases whole : dense.scan none payload with
      | none => rfl
      | some hit =>
          have inPayload := stop_lt_of_scan whole
          rw [← parts] at whole
          have behind := length_le_stop_of_scan_append seen whole
          rw [List.length_take] at behind
          have outside : ¬ hit.stop < depth := by omega
          rw [Option.filter_some, if_neg (by simpa using outside)]

/-- A scan to some depth finds what the unlimited scan finds in front of it, and nothing when
that lies further behind.  Bytes behind a payload do not change what is found in it, and when
nothing is found there, a match in the longer payload does not end in it. -/
theorem scan_settled_by_prefix (dense : DenseTable) (payload : List UInt8) :
    (∀ depth, dense.scan (some depth) payload =
        (dense.scan none payload).filter fun hit => hit.stop < depth) ∧
      ∀ rest,
        (∀ hit, dense.scan none payload = some hit →
          dense.scan none (payload ++ rest) = some hit) ∧
        (dense.scan none payload = none → ∀ hit,
          dense.scan none (payload ++ rest) = some hit → payload.length ≤ hit.stop) := by
  constructor
  · intro depth
    exact dense.scan_some depth payload
  · intro rest
    constructor
    · intro hit found
      exact scan_append_of_eq_some found rest
    · intro missing hit found
      exact length_le_stop_of_scan_append missing found

/-- A table that finds `ab`. -/
def pairTable : Table :=
  ⟨((∅ : Std.ExtTreeMap Table.Key Table.Transition Table.Key.compare).insert
    ⟨0, 97⟩ ⟨1, 0⟩).insert ⟨1, 98⟩ ⟨0, 7⟩⟩

/-- The pair in `bab` ends at offset 2.  A depth of three bytes is enough for it and two bytes
are not, a second pair behind it is not reported, and when its last byte is still to come the
match ends at that byte. -/
theorem scan_settled_by_prefix_at_boundary :
    (ofTable pairTable).scan none [98, 97, 98] = some ⟨7, 2, 0⟩ ∧
      (ofTable pairTable).scan (some 3) [98, 97, 98] = some ⟨7, 2, 0⟩ ∧
      (ofTable pairTable).scan (some 2) [98, 97, 98] = none ∧
      (ofTable pairTable).scan none ([98, 97, 98] ++ [97, 98]) = some ⟨7, 2, 0⟩ ∧
      (ofTable pairTable).scan none [98, 97] = none ∧
      ∃ hit, (ofTable pairTable).scan none ([98, 97] ++ [98]) = some hit ∧ 2 ≤ hit.stop := by
  have found : (ofTable pairTable).scan none [98, 97, 98] = some ⟨7, 2, 0⟩ := by decide +kernel
  have missing : (ofTable pairTable).scan none [98, 97] = none := by decide +kernel
  have whole := scan_settled_by_prefix (ofTable pairTable) [98, 97, 98]
  have short := scan_settled_by_prefix (ofTable pairTable) [98, 97]
  refine ⟨found, ?_, ?_, (whole.2 [97, 98]).1 _ found, missing, _, found,
    (short.2 [98]).2 missing _ found⟩
  · rw [whole.1, found]
    rfl
  · rw [whole.1, found]
    rfl

end DenseTable

end ByteSignature
