import Mathlib.Data.List.Nodup

/-!
# Association lists with distinct keys

In a list whose keys are distinct, looking a key up finds the pair with that key.
-/

namespace ByteSignature

universe u v

variable {α : Type u} {β : Type v} [BEq α] [LawfulBEq α]

/-- With distinct keys, a key has the value of every pair that it is in. -/
theorem lookup_eq_some_iff_mem {pairs : List (α × β)} (nodup : (pairs.map Prod.fst).Nodup)
    {key : α} {value : β} : pairs.lookup key = some value ↔ (key, value) ∈ pairs := by
  induction pairs with
  | nil => simp
  | cons pair pairs ih =>
      rcases pair with ⟨first, firstValue⟩
      rw [List.map_cons, List.nodup_cons] at nodup
      rw [List.lookup_cons]
      by_cases isFirst : key = first
      · subst isFirst
        simp only [beq_self_eq_true, Option.some.injEq, List.mem_cons, Prod.mk.injEq,
          true_and]
        constructor
        · intro eq
          exact Or.inl eq.symm
        · rintro (eq | later)
          · exact eq.symm
          · exact absurd (List.mem_map_of_mem later) nodup.1
      · have different : (key == first) = false := by simpa using isFirst
        simp [different, isFirst, ih nodup.2]

theorem lookup_isSome_iff_mem_map {pairs : List (α × β)} {key : α} :
    (pairs.lookup key).isSome ↔ key ∈ pairs.map Prod.fst := by
  simp only [List.lookup_isSome_iff, List.mem_map, beq_iff_eq]
  constructor
  · rintro ⟨pair, pairMem, eq⟩
    exact ⟨pair, pairMem, eq.symm⟩
  · rintro ⟨pair, pairMem, eq⟩
    exact ⟨pair, pairMem, eq.symm⟩

end ByteSignature
