import Std.Data.HashSet.Lemmas

/-!
# Insertion-ordered sets

A set that keeps its members in the order in which they first came.  The member
list carries the order and a hash index answers membership; the two always agree,
and no member is listed twice.
-/

namespace ByteSignature

universe u

/-- Distinct members in the order of their first insertion. -/
structure OrderedSet (α : Type u) [BEq α] [Hashable α] where
  items : Array α
  index : Std.HashSet α
  mem_index_iff : ∀ item, item ∈ index ↔ item ∈ items
  nodup : items.toList.Nodup

namespace OrderedSet

variable {α : Type u} [BEq α] [Hashable α] [LawfulBEq α] [LawfulHashable α]

/-- The set without members. -/
def empty : OrderedSet α where
  items := #[]
  index := ∅
  mem_index_iff := by simp
  nodup := by simp

/-- Add a member behind all others unless it is there already. -/
def insert (set : OrderedSet α) (item : α) : OrderedSet α :=
  if h : item ∈ set.index then
    set
  else {
    items := set.items.push item
    index := set.index.insert item
    mem_index_iff := by
      intro other
      rw [Std.HashSet.mem_insert, Array.mem_push, set.mem_index_iff, beq_iff_eq, or_comm,
        eq_comm (a := item)]
    nodup := by
      have fresh : item ∉ set.items.toList := by
        simpa [set.mem_index_iff] using h
      rw [Array.toList_push, List.nodup_append]
      refine ⟨set.nodup, by simp, ?_⟩
      rintro other hother last hlast rfl
      rw [List.mem_singleton] at hlast
      exact fresh (hlast ▸ hother) }

/-- Add the members of a list from left to right. -/
def insertMany (set : OrderedSet α) (items : List α) : OrderedSet α :=
  items.foldl insert set

/-- The set of the members of a list. -/
def ofList (items : List α) : OrderedSet α :=
  empty.insertMany items

/-- The members in order. -/
def toList (set : OrderedSet α) : List α :=
  set.items.toList

omit [LawfulBEq α] [LawfulHashable α] in
theorem nodup_toList (set : OrderedSet α) : set.toList.Nodup :=
  set.nodup

theorem toList_insert (set : OrderedSet α) (item : α) :
    (set.insert item).toList =
      if item ∈ set.toList then set.toList else set.toList ++ [item] := by
  have hmem : item ∈ set.index ↔ item ∈ set.toList := by
    simpa [toList] using set.mem_index_iff item
  by_cases h : item ∈ set.toList
  · simp [insert, h, hmem.mpr h]
  · rw [if_neg h]
    simp [insert, mt hmem.mp h, toList]

@[simp]
theorem mem_toList_insert {set : OrderedSet α} {item other : α} :
    other ∈ (set.insert item).toList ↔ other ∈ set.toList ∨ other = item := by
  rw [toList_insert]
  split
  · constructor
    · exact Or.inl
    · rintro (h | rfl) <;> assumption
  · simp

@[simp]
theorem mem_toList_insertMany {set : OrderedSet α} {items : List α} {other : α} :
    other ∈ (set.insertMany items).toList ↔ other ∈ set.toList ∨ other ∈ items := by
  induction items generalizing set with
  | nil => simp [insertMany]
  | cons item items ih =>
      simpa [insertMany, or_assoc] using @ih (set.insert item)

@[simp]
theorem mem_toList_ofList {items : List α} {other : α} :
    other ∈ (ofList items).toList ↔ other ∈ items := by
  rw [ofList, mem_toList_insertMany]
  simp [empty, toList]

/-- Bytes can be members. -/
instance : LawfulHashable UInt8 :=
  inferInstance

end OrderedSet

end ByteSignature
