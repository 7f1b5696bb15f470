import ByteSignature.Sequence
import Mathlib.Algebra.Group.Nat.Defs
import Mathlib.Data.List.Infix
import Mathlib.Order.Bounds.Basic

/-!
# The log of a sequence

The log of a sequence says what was done to it since it was new.  It tells what the sequence
holds, as a plain list would, and what it held at every time before, behind each prefix of the
log.  The room of a sequence is the least number of the form `8 * 2 ^ k` that was enough at
all of these times: it never shrinks, so what is taken away or cleared does not count less.

Appending is the only change that can need more room.  When it does, the old room was full and
doubling it is the next number of the form; every other change keeps the room, and what the
sequence then holds fits.
-/

namespace ByteSignature.Sequence

universe u

/-- A change of a sequence. -/
inductive Change (α : Type u) where
  | push (item : α)
  | add (item : α)
  | pop
  | clear

/-- What comes back from a request. -/
inductive Answer (α : Type u) where
  | done
  | added (isNew : Bool)
  | item (item : α)
  deriving DecidableEq

variable {α : Type u}

/-- The change appends without a look at what is there. -/
def Change.isPush : Change α → Bool
  | push _ => true
  | add _ | pop | clear => false

variable [BEq α]

namespace Change

/-- What the change makes of a plain list of items. -/
def apply (items : List α) : Change α → List α
  | push item => items ++ [item]
  | add item => if items.any (· == item) then items else items ++ [item]
  | pop => items.dropLast
  | clear => []

/-- What a plain list of items answers.  From the empty one nothing can be taken. -/
def answer? (items : List α) : Change α → Option (Answer α)
  | push _ | clear => some .done
  | add item => some (.added !items.any (· == item))
  | pop => items.getLast?.map .item

end Change

/-- What a sequence holds to which the changes of a log were made. -/
def contents (log : List (Change α)) : List α :=
  log.foldl Change.apply []

@[simp]
theorem contents_concat (log : List (Change α)) (change : Change α) :
    contents (log ++ [change]) = change.apply (contents log) := by
  rw [contents, List.foldl_append]
  rfl

/-! ## Items that differ -/

/-- No item equals a later one. -/
def Distinct (items : List α) : Prop :=
  items.Pairwise fun first second => (first == second) = false

theorem Distinct.apply {items : List α} (distinct : Distinct items) {change : Change α}
    (noPush : change.isPush = false) : Distinct (change.apply items) := by
  cases change with
  | push item => cases noPush
  | add item =>
      rw [Change.apply]
      split
      · exact distinct
      · rename_i absent
        rw [List.any_eq_true] at absent
        refine List.pairwise_append.mpr ⟨distinct, List.pairwise_singleton _ _, ?_⟩
        intro other otherMem last lastMem
        rw [List.mem_singleton.mp lastMem]
        exact Bool.eq_false_iff.mpr fun equal => absent ⟨other, otherMem, equal⟩
  | pop => exact distinct.sublist (List.dropLast_sublist items)
  | clear => exact List.Pairwise.nil

/-- Items that differ go on to do so, unless some are appended without a look at the others. -/
theorem distinct_contents {before after : List (Change α)} (distinct : Distinct (contents before))
    (noPush : ∀ change ∈ after, change.isPush = false) :
    Distinct (contents (before ++ after)) := by
  induction after using List.reverseRecOn with
  | nil => rwa [List.append_nil]
  | append_singleton after change ih =>
      rw [← List.append_assoc, contents_concat]
      apply Distinct.apply
      · exact ih fun other otherMem => noPush other (List.mem_append_left _ otherMem)
      · exact noPush change (by simp)

/-! ## Room for everything that was held -/

/-- The numbers of the form `8 * 2 ^ k` that were enough at every time. -/
def rooms (log : List (Change α)) : Set Nat :=
  {room | (∃ k, room = 8 * 2 ^ k) ∧ ∀ past, past <+: log → (contents past).length ≤ room}

variable {log : List (Change α)} {change : Change α} {capacity : Nat}

theorem mem_rooms_concat {room : Nat} :
    room ∈ rooms (log ++ [change]) ↔
      room ∈ rooms log ∧ (contents (log ++ [change])).length ≤ room := by
  constructor
  · rintro ⟨form, enough⟩
    refine ⟨⟨form, fun past isPrefix => ?_⟩, enough _ (List.prefix_refl _)⟩
    exact enough past (isPrefix.trans (List.prefix_append log [change]))
  · rintro ⟨⟨form, enough⟩, fits⟩
    refine ⟨form, fun past isPrefix => ?_⟩
    rcases List.prefix_concat_iff.mp isPrefix with rfl | isPrefix
    · exact fits
    · exact enough past isPrefix

theorem eight_le_of_mem_rooms {room : Nat} (roomMem : room ∈ rooms log) : 8 ≤ room := by
  obtain ⟨⟨k, rfl⟩, -⟩ := roomMem
  exact Nat.le_mul_of_pos_right 8 (Nat.two_pow_pos k)

theorem isLeast_rooms_nil : IsLeast (rooms ([] : List (Change α))) initialCapacity := by
  constructor
  · refine ⟨⟨0, rfl⟩, fun past isPrefix => ?_⟩
    rw [List.prefix_nil.mp isPrefix]
    exact Nat.zero_le _
  · intro room roomMem
    exact eight_le_of_mem_rooms roomMem

/-- Room that stays enough stays the least. -/
theorem isLeast_rooms_concat (least : IsLeast (rooms log) capacity)
    (fits : (contents (log ++ [change])).length ≤ capacity) :
    IsLeast (rooms (log ++ [change])) capacity := by
  constructor
  · exact mem_rooms_concat.mpr ⟨least.1, fits⟩
  · intro room roomMem
    exact least.2 (mem_rooms_concat.mp roomMem).1

/-- Between a number of the form and its double there is none. -/
theorem isLeast_rooms_double (least : IsLeast (rooms log) capacity)
    (exceeds : (contents (log ++ [change])).length = capacity + 1) :
    IsLeast (rooms (log ++ [change])) (2 * capacity) := by
  obtain ⟨⟨k, rfl⟩, enough⟩ := least.1
  have double : 2 * (8 * 2 ^ k) = 8 * 2 ^ (k + 1) := by
    rw [Nat.pow_succ]
    omega
  constructor
  · refine mem_rooms_concat.mpr ⟨⟨⟨k + 1, double⟩, fun past isPrefix => ?_⟩, ?_⟩
    · exact (enough past isPrefix).trans (by omega)
    · have pos : 0 < 2 ^ k := Nat.two_pow_pos k
      omega
  · intro room roomMem
    obtain ⟨⟨⟨j, rfl⟩, -⟩, fits⟩ := mem_rooms_concat.mp roomMem
    -- Enough room is more than the old one, so it is a later number of the form.
    have lt : k < j := by
      apply (Nat.pow_lt_pow_iff_right (a := 2) (by decide)).mp
      omega
    rw [double]
    exact Nat.mul_le_mul_left 8 (Nat.pow_le_pow_right (by decide) lt)

/-! ## Sequences with their logs -/

/-- A sequence is as a log tells.  It holds what a plain list would, and its room is the least
number of the form `8 * 2 ^ k` that was enough at every time.  If no two items were equal at
some time, such as at the start, and all that was done since was adding, taking away and
clearing, then none are equal now. -/
structure Follows (sequence : Sequence α) (log : List (Change α)) : Prop where
  toList_eq : sequence.toList = contents log
  isLeast_capacity : IsLeast (rooms log) sequence.capacity
  distinct : ∀ before after, log = before ++ after → Distinct (contents before) →
    (∀ change ∈ after, change.isPush = false) → Distinct sequence.toList

theorem follows_of_isLeast {sequence : Sequence α} (toList_eq : sequence.toList = contents log)
    (least : IsLeast (rooms log) sequence.capacity) : Follows sequence log where
  toList_eq := toList_eq
  isLeast_capacity := least
  distinct := by
    rintro before after rfl distinct noPush
    rw [toList_eq]
    exact distinct_contents distinct noPush

theorem follows_empty : Follows (empty : Sequence α) [] :=
  follows_of_isLeast rfl isLeast_rooms_nil

namespace Follows

variable {sequence next : Sequence α}

theorem contains_eq (follows : Follows sequence log) (item : α) :
    sequence.contains item = (contents log).any (· == item) := by
  rw [contains_eq_any, follows.toList_eq]

theorem back?_eq (follows : Follows sequence log) :
    sequence.back? = (contents log).getLast? := by
  rw [← follows.toList_eq, back?, toList, Array.getLast?_toList]

/-- A change that keeps the room. -/
theorem keep (follows : Follows sequence log) (toList_eq : next.toList = contents (log ++ [change]))
    (capacity_eq : next.capacity = sequence.capacity) : Follows next (log ++ [change]) := by
  refine follows_of_isLeast toList_eq ?_
  rw [capacity_eq]
  apply isLeast_rooms_concat follows.isLeast_capacity
  rw [← toList_eq, ← capacity_eq]
  exact next.size_le_capacity

/-- A change that appends. -/
theorem append (follows : Follows sequence log) {item : α}
    (appends : contents (log ++ [change]) = contents log ++ [item]) :
    Follows (sequence.push item) (log ++ [change]) := by
  have toList_eq : (sequence.push item).toList = contents (log ++ [change]) := by
    rw [toList_push, follows.toList_eq, appends]
  by_cases full : sequence.items.size = sequence.capacity
  · refine follows_of_isLeast toList_eq ?_
    have capacity_eq : (sequence.push item).capacity = 2 * sequence.capacity := by
      -- Eight places are the least there are, so twice the size is the greater of the two.
      have eight_le := eight_le_of_mem_rooms follows.isLeast_capacity.1
      simp only [push, roomForOneMore, initialCapacity, full, if_true]
      omega
    rw [capacity_eq]
    apply isLeast_rooms_double follows.isLeast_capacity
    rw [← toList_eq, toList_push, List.length_append, ← full]
    rfl
  · exact follows.keep toList_eq (if_neg full)

theorem extend (follows : Follows sequence log) (items : List α) :
    Follows (sequence.extend items) (log ++ items.map .push) := by
  induction items generalizing sequence log with
  | nil => simpa [Sequence.extend] using follows
  | cons item items ih =>
      have first : Follows (sequence.push item) (log ++ [.push item]) :=
        follows.append (contents_concat log (.push item))
      simpa [Sequence.extend] using ih first

end Follows

/-! ## Changes and their answers -/

/-- What a sequence answers when it is asked for a change, and what it then is.  Nothing can be
taken from an empty one. -/
def change? (sequence : Sequence α) : Change α → Option (Answer α × Sequence α)
  | .push item => some (.done, sequence.push item)
  | .add item => some (.added (sequence.add item).1, (sequence.add item).2)
  | .pop => sequence.back?.map fun item => (.item item, sequence.pop)
  | .clear => some (.done, sequence.clear)

/-- What a plain list answers, and the log behind the change. -/
def record? (log : List (Change α)) (change : Change α) :
    Option (Answer α × List (Change α)) :=
  (change.answer? (contents log)).map fun answer => (answer, log ++ [change])

/-- The same answers, and states that are related. -/
def Agree {β σ τ : Type*} (related : σ → τ → Prop) (first : β × σ) (second : β × τ) : Prop :=
  first.1 = second.1 ∧ related first.2 second.2

/-- A sequence answers as a plain list does, and goes on to follow its log. -/
theorem Follows.change? {sequence : Sequence α} (follows : Follows sequence log)
    (change : Change α) :
    Option.Rel (Agree Follows) (sequence.change? change) (record? log change) := by
  cases change with
  | push item => exact .some ⟨rfl, follows.append (contents_concat log (.push item))⟩
  | add item =>
      have contains_eq := follows.contains_eq item
      by_cases present : sequence.contains item
      · have keeps : contents (log ++ [.add item]) = contents log := by
          rw [contents_concat, Change.apply, ← contains_eq, if_pos present]
        rw [Sequence.change?, add, if_pos present]
        refine .some ⟨?_, follows.keep (follows.toList_eq.trans keeps.symm) rfl⟩
        rw [← contains_eq, present]
        rfl
      · have appends : contents (log ++ [.add item]) = contents log ++ [item] := by
          rw [contents_concat, Change.apply, ← contains_eq, if_neg present]
        rw [Sequence.change?, add, if_neg present]
        refine .some ⟨?_, follows.append appends⟩
        rw [← contains_eq, Bool.eq_false_iff.mpr present]
        rfl
  | pop =>
      rw [Sequence.change?, record?, Change.answer?, follows.back?_eq]
      cases (contents log).getLast? with
      | none => exact .none
      | some item =>
          refine .some ⟨rfl, follows.keep ?_ rfl⟩
          rw [toList_pop, follows.toList_eq, contents_concat]
          rfl
  | clear => exact .some ⟨rfl, follows.keep (contents_concat log .clear).symm rfl⟩

end ByteSignature.Sequence
