import Mathlib.Data.List.Forall2
import Mathlib.Data.Set.Card
import Std.Data.HashMap.Lemmas

/-!
# Numbering by position

Distinct items of a list are numbered by their positions, and a hash map from items to
positions knows exactly these numbers.  There are as many of them as members of the set that
the items make up.
-/

namespace ByteSignature

universe u

variable {α : Type u} [BEq α] [Hashable α] [LawfulBEq α] [LawfulHashable α]

/-- The map from the items of a list to their positions. -/
theorem getElem?_ofList_zipIdx {items : List α} (nodup : items.Nodup) (item : α) (index : Nat) :
    (Std.HashMap.ofList items.zipIdx)[item]? = some index ↔ items[index]? = some item := by
  have distinct : items.zipIdx.Pairwise fun first second => (first.1 == second.1) = false := by
    rw [← List.zipIdx_map_fst 0 items, List.Nodup, List.pairwise_map] at nodup
    apply nodup.imp
    intro first second different
    simpa using different
  constructor
  · intro found
    by_cases itemMem : item ∈ items
    · rcases List.mem_iff_getElem?.mp itemMem with ⟨place, placed⟩
      have known := Std.HashMap.getElem?_ofList_of_mem (beq_self_eq_true item) distinct
        (List.mk_mem_zipIdx_iff_getElem?.mpr placed)
      rw [known, Option.some.injEq] at found
      rwa [← found]
    · rw [Std.HashMap.getElem?_ofList_of_contains_eq_false] at found
      · cases found
      · rw [List.zipIdx_map_fst]
        simpa using itemMem
  · intro placed
    exact Std.HashMap.getElem?_ofList_of_mem (beq_self_eq_true item) distinct
      (List.mk_mem_zipIdx_iff_getElem?.mpr placed)

theorem getD_ofList_zipIdx {items : List α} (nodup : items.Nodup) {item : α} {index : Nat}
    (placed : items[index]? = some item) (fallback : Nat) :
    (Std.HashMap.ofList items.zipIdx).getD item fallback = index := by
  rw [Std.HashMap.getD_eq_getD_getElem?, (getElem?_ofList_zipIdx nodup item index).mpr placed]
  rfl

omit [BEq α] [Hashable α] [LawfulBEq α] [LawfulHashable α] in
/-- Distinct items have one position each. -/
theorem index_eq_of_getElem? {items : List α} (nodup : items.Nodup) {item : α}
    {first second : Nat} (atFirst : items[first]? = some item)
    (atSecond : items[second]? = some item) : first = second :=
  (List.getElem?_inj (List.getElem?_eq_some_iff.mp atFirst).1 nodup).mp
    (atFirst.trans atSecond.symm)

omit [BEq α] [Hashable α] [LawfulBEq α] [LawfulHashable α] in
/-- Positions that are listed in the order of their items are the numbers in order. -/
theorem eq_range_of_forall₂ {items : List α} (nodup : items.Nodup) {positions : List Nat}
    (along : List.Forall₂ (fun item position => items[position]? = some item) items positions) :
    positions = List.range items.length := by
  have length_eq := along.length_eq
  apply List.ext_getElem
  · rw [List.length_range, length_eq]
  · intro index indexLt _
    have inside : index < items.length := length_eq ▸ indexLt
    rw [List.getElem_range]
    exact index_eq_of_getElem? nodup (along.get inside indexLt) (List.getElem?_eq_getElem inside)

omit [BEq α] [Hashable α] [LawfulBEq α] [LawfulHashable α] in
theorem ncard_eq_length {items : List α} (nodup : items.Nodup) {members : Set α}
    (mem_iff : ∀ item, item ∈ items ↔ item ∈ members) : members.ncard = items.length := by
  classical
  have members_eq : members = (items.toFinset : Set α) := by
    ext item
    rw [List.coe_toFinset, ← mem_iff]
    rfl
  rw [members_eq, Set.ncard_coe_finset, List.toFinset_card_of_nodup nodup]

end ByteSignature
