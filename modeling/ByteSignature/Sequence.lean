/-!
# Growing sequences

A sequence that remembers how much room it has.  Room starts at eight places and
doubles whenever an element would not fit; removing elements and clearing keep the
room, and copies inherit it.  The elements behave as a plain list, with set-style
insertion beside plain appending.
-/

namespace ByteSignature

universe u

/-- Items in order together with the number of items there is room for. -/
@[ext]
structure Sequence (α : Type u) where
  items : Array α
  capacity : Nat
  size_le_capacity : items.size ≤ capacity
  deriving DecidableEq, Repr

namespace Sequence

variable {α : Type u}

/-- The room of a new sequence. -/
def initialCapacity : Nat :=
  8

/-- The sequence without items. -/
def empty : Sequence α where
  items := #[]
  capacity := initialCapacity
  size_le_capacity := Nat.zero_le _

/-- The items as a plain list. -/
def toList (sequence : Sequence α) : List α :=
  sequence.items.toList

/-- The number of items. -/
def size (sequence : Sequence α) : Nat :=
  sequence.items.size

/-- The room that is there once one more item has to fit. -/
def roomForOneMore (size capacity : Nat) : Nat :=
  if size = capacity then max (2 * size) initialCapacity else capacity

theorem lt_roomForOneMore {size capacity : Nat} (h : size ≤ capacity) :
    size < roomForOneMore size capacity := by
  simp only [roomForOneMore, initialCapacity]
  split <;> omega

/-- Append an item, doubling the room first when there is none left. -/
def push (sequence : Sequence α) (item : α) : Sequence α where
  items := sequence.items.push item
  capacity := roomForOneMore sequence.items.size sequence.capacity
  size_le_capacity := by
    rw [Array.size_push]
    exact lt_roomForOneMore sequence.size_le_capacity

/-- Append every item of a list in order. -/
def extend (sequence : Sequence α) (items : List α) : Sequence α :=
  items.foldl push sequence

/-- The sequence built by appending the items of a list to the empty one. -/
def ofList (items : List α) : Sequence α :=
  empty.extend items

/-- Take the last item away. -/
def pop (sequence : Sequence α) : Sequence α where
  items := sequence.items.pop
  capacity := sequence.capacity
  size_le_capacity := Nat.le_trans (by simp) sequence.size_le_capacity

/-- The first item. -/
def front? (sequence : Sequence α) : Option α :=
  sequence.items[0]?

/-- The last item. -/
def back? (sequence : Sequence α) : Option α :=
  sequence.items.back?

/-- Drop every item and keep the room. -/
def clear (sequence : Sequence α) : Sequence α where
  items := #[]
  capacity := sequence.capacity
  size_le_capacity := Nat.zero_le _

/-- A copy: as much room as the original has, filled with its items. -/
def duplicate (sequence : Sequence α) : Sequence α :=
  sequence.clear.extend sequence.toList

/-- An equal item is present. -/
def contains [BEq α] (sequence : Sequence α) (item : α) : Bool :=
  sequence.items.any (· == item)

/-- Append an item that is not there yet.  The flag tells whether it was new. -/
def add [BEq α] (sequence : Sequence α) (item : α) : Bool × Sequence α :=
  if sequence.contains item then (false, sequence) else (true, sequence.push item)

@[simp]
theorem toList_empty : (empty : Sequence α).toList = [] :=
  rfl

@[simp]
theorem toList_push (sequence : Sequence α) (item : α) :
    (sequence.push item).toList = sequence.toList ++ [item] := by
  simp [toList, push]

@[simp]
theorem toList_extend (sequence : Sequence α) (items : List α) :
    (sequence.extend items).toList = sequence.toList ++ items := by
  induction items generalizing sequence with
  | nil => simp [extend]
  | cons item items ih => simpa [extend] using ih (sequence.push item)

@[simp]
theorem toList_ofList (items : List α) : (ofList items).toList = items := by
  simp [ofList]

@[simp]
theorem toList_pop (sequence : Sequence α) :
    sequence.pop.toList = sequence.toList.dropLast := by
  simp [toList, pop]

@[simp]
theorem toList_clear (sequence : Sequence α) : sequence.clear.toList = [] :=
  rfl

/-- Room does not change as long as there is enough of it. -/
theorem capacity_extend {sequence : Sequence α} {items : List α}
    (fits : sequence.items.size + items.length ≤ sequence.capacity) :
    (sequence.extend items).capacity = sequence.capacity := by
  induction items generalizing sequence with
  | nil => rfl
  | cons item items ih =>
      rw [List.length_cons] at fits
      have capacity_push : (sequence.push item).capacity = sequence.capacity :=
        if_neg (by omega)
      have size_push : (sequence.push item).items.size = sequence.items.size + 1 :=
        Array.size_push item
      rw [← capacity_push]
      exact ih (by omega)

@[simp]
theorem duplicate_eq (sequence : Sequence α) : sequence.duplicate = sequence := by
  apply Sequence.ext
  · apply Array.toList_inj.mp
    exact toList_extend sequence.clear sequence.toList
  · apply capacity_extend
    simpa [clear, toList] using sequence.size_le_capacity

theorem contains_eq_any [BEq α] (sequence : Sequence α) (item : α) :
    sequence.contains item = sequence.toList.any (· == item) :=
  Array.any_toList.symm

theorem contains_iff_mem [BEq α] [LawfulBEq α] {sequence : Sequence α} {item : α} :
    sequence.contains item ↔ item ∈ sequence.toList := by
  rw [contains_eq_any, List.any_beq', List.contains_iff_mem]

theorem toList_add [BEq α] [LawfulBEq α] (sequence : Sequence α) (item : α) :
    (sequence.add item).2.toList =
      if item ∈ sequence.toList then sequence.toList else sequence.toList ++ [item] := by
  by_cases present : item ∈ sequence.toList
  · rw [add, if_pos (contains_iff_mem.mpr present), if_pos present]
  · rw [add, if_neg (mt contains_iff_mem.mp present), if_neg present, toList_push]

@[simp]
theorem size_eq_length_toList (sequence : Sequence α) :
    sequence.size = sequence.toList.length := by
  simp [size, toList]

end Sequence

end ByteSignature
