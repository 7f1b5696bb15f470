import ByteSignature.Literal.Table
import ByteSignature.Proofs.Literal.Suffix
import ByteSignature.Proofs.Table.Entries

/-!
# Literal sets of lists

A list is a literal set exactly as it stands, as long as its literals fit.  What is compiled
of it is a table of entries whose states fit under the limit.
-/

namespace ByteSignature

variable {literals : List (List UInt8)} {table : Table}

namespace LiteralSet

theorem push_eq_ok {set next : LiteralSet} {literal : List UInt8}
    (pushed : set.push literal = .ok next) : next.toList = set.toList ++ [literal] := by
  rw [push] at pushed
  split at pushed
  · cases pushed
  · split at pushed
    · cases pushed
      exact Array.toList_push
    · cases pushed

theorem pushMany_eq_ok {set next : LiteralSet} {literals : List (List UInt8)}
    (pushed : set.pushMany literals = .ok next) : next.toList = set.toList ++ literals := by
  induction literals generalizing set with
  | nil =>
      cases pushed
      rw [List.append_nil]
  | cons literal literals ih =>
      rw [pushMany] at pushed
      cases first : set.push literal with
      | error error =>
          rw [first] at pushed
          cases pushed
      | ok middle =>
          rw [first] at pushed
          rw [ih pushed, push_eq_ok first, List.append_assoc, List.singleton_append]

/-- Literals that fit can be added. -/
theorem exists_pushMany_eq_ok {set : LiteralSet} {literals : List (List UInt8)}
    (numberable : Numberable (set.toList ++ literals)) :
    ∃ next, set.pushMany literals = .ok next := by
  induction literals generalizing set with
  | nil => exact ⟨set, rfl⟩
  | cons literal literals ih =>
      have literalNe : literal ≠ [] :=
        numberable.ne_nil literal (List.mem_append_right _ List.mem_cons_self)
      have room : set.literals.size < maxSize := by
        have length_le := numberable.length_le
        rw [List.length_append, List.length_cons, toList, Array.length_toList] at length_le
        rw [maxSize]
        omega
      obtain ⟨middle, pushed⟩ : ∃ middle, set.push literal = .ok middle := by
        rw [push, dif_neg literalNe, dif_pos room]
        exact ⟨_, rfl⟩
      rw [pushMany, pushed]
      apply ih
      rw [push_eq_ok pushed, List.append_assoc, List.singleton_append]
      exact numberable

theorem toList_of_ofList {set : LiteralSet} {literals : List (List UInt8)}
    (made : ofList literals = .ok set) : set.toList = literals :=
  pushMany_eq_ok made

theorem exists_ofList_eq_ok {literals : List (List UInt8)} (numberable : Numberable literals) :
    ∃ set, ofList literals = .ok set :=
  exists_pushMany_eq_ok numberable

/-- A table is made of entries when enough states are allowed. -/
theorem checkedTable_eq_ok_iff {needed limit : Nat} {entries : List Table.Entry} :
    (match checkStates needed limit with
      | .error error => Except.error error
      | .ok () => tableOf entries) = .ok table ↔
      needed ≤ limit ∧ Table.ofEntries entries = .ok table := by
  rw [checkStates, tableOf]
  by_cases tooMany : limit < needed
  · simp [tooMany, Nat.not_le.mpr tooMany]
  · simp only [tooMany, if_false, Nat.not_lt.mp tooMany, true_and]
    cases Table.ofEntries entries with
    | error second => simp
    | ok made => simp

end LiteralSet

theorem compileLiterals_eq_of_ofList {set : LiteralSet}
    (made : LiteralSet.ofList literals = .ok set) (options : CompileOptions) :
    compileLiterals options literals = set.compile options := by
  rw [compileLiterals, made]

theorem exists_compile_of_compileLiterals {options : CompileOptions}
    (compiled : compileLiterals options literals = .ok table) :
    ∃ set : LiteralSet, set.toList = literals ∧ set.compile options = .ok table := by
  cases made : LiteralSet.ofList literals with
  | error error =>
      rw [compileLiterals, made] at compiled
      cases compiled
  | ok set =>
      rw [compileLiterals_eq_of_ofList made] at compiled
      exact ⟨set, LiteralSet.toList_of_ofList made, compiled⟩

/-- Literals that are compiled can be numbered. -/
theorem numberable_of_compileLiterals {options : CompileOptions}
    (compiled : compileLiterals options literals = .ok table) : Numberable literals := by
  obtain ⟨set, rfl, -⟩ := exists_compile_of_compileLiterals compiled
  exact set.numberable

/-- Literals that fit make a set, which is compiled. -/
theorem exists_compileLiterals_eq {literals : List (List UInt8)}
    (numberable : Numberable literals) (options : CompileOptions) :
    ∃ set : LiteralSet, set.toList = literals ∧
      compileLiterals options literals = set.compile options := by
  obtain ⟨set, made⟩ := LiteralSet.exists_ofList_eq_ok numberable
  exact ⟨set, LiteralSet.toList_of_ofList made, compileLiterals_eq_of_ofList made options⟩

end ByteSignature
