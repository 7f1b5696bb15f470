import ByteSignature.Proofs.Graph.Discovery
import ByteSignature.Sequence

/-!
# Walking a sequence that grows

A graph can be searched with a single sequence of nodes: the nodes are visited from the first
one on, and the successors of each are added behind the others unless they are there already.
The walk is over when there is no further node to visit.  In a finite graph this comes about,
with cycles or without, and the sequence then holds what discovery lists.
-/

namespace ByteSignature

namespace Sequence

/-- Add items from left to right, each unless it is there already. -/
def addMany (sequence : Sequence Nat) (items : List Nat) : Sequence Nat :=
  items.foldl (fun sequence item => (sequence.add item).2) sequence

/-- Sequences to which items are only added hold what insertion-ordered sets do. -/
theorem toList_addMany {sequence : Sequence Nat} {set : OrderedSet Nat}
    (same : sequence.toList = set.toList) (items : List Nat) :
    (sequence.addMany items).toList = (set.insertMany items).toList := by
  induction items generalizing sequence set with
  | nil => exact same
  | cons item items ih =>
      apply ih
      rw [toList_add, OrderedSet.toList_insert, same]

end Sequence

namespace Graph

/-- Visiting the items of a sequence from a position on, with their successors added to it on
the way, ends with the last sequence. -/
inductive Walk (successors : Nat → List Nat) : (next : Nat) → Sequence Nat → Sequence Nat →
    Prop where
  | ended {next : Nat} {sequence : Sequence Nat} (exhausted : sequence.toList[next]? = none) :
      Walk successors next sequence sequence
  | visit {next node : Nat} {sequence last : Sequence Nat}
      (nodeAt : sequence.toList[next]? = some node)
      (rest : Walk successors (next + 1) (sequence.addMany (successors node)) last) :
      Walk successors next sequence last

variable {successors : Nat → List Nat} {next : Nat} {sequence last last2 : Sequence Nat}

/-- A walk ends in one way only. -/
theorem Walk.unique (walk : Walk successors next sequence last)
    (walk2 : Walk successors next sequence last2) : last = last2 := by
  induction walk with
  | ended exhausted =>
      cases walk2 with
      | ended => rfl
      | visit nodeAt _ =>
          rw [exhausted] at nodeAt
          cases nodeAt
  | visit nodeAt _ ih =>
      cases walk2 with
      | ended exhausted =>
          rw [exhausted] at nodeAt
          cases nodeAt
      | visit nodeAt2 rest2 =>
          rw [nodeAt, Option.some.injEq] at nodeAt2
          subst nodeAt2
          exact ih rest2

/-- As many rounds of discovery as there are nodes to visit are a walk. -/
theorem exists_walk_of_discoverFrom {rounds : Nat} {found : OrderedSet Nat}
    (same : sequence.toList = found.toList)
    (enough : (discoverFrom successors rounds next found).toList.length ≤ next + rounds) :
    ∃ last, Walk successors next sequence last ∧
      last.toList = (discoverFrom successors rounds next found).toList := by
  induction rounds generalizing next sequence found with
  | zero =>
      refine ⟨sequence, .ended ?_, same⟩
      rw [same]
      exact List.getElem?_eq_none enough
  | succ rounds ih =>
      rw [discoverFrom, OrderedSet.getElem?_items, ← same] at enough ⊢
      split at enough
      · rename_i exhausted
        exact ⟨sequence, .ended exhausted, same⟩
      · rename_i node nodeAt
        rw [show next + (rounds + 1) = next + 1 + rounds by omega] at enough
        obtain ⟨last, rest, last_eq⟩ := ih (Sequence.toList_addMany same (successors node)) enough
        exact ⟨last, .visit nodeAt rest, last_eq⟩

/-- In a finite graph a walk from some seeds ends, with what they discover. -/
theorem exists_walk {count : Nat} {seeds : List Nat} (bounded : Bounded successors count)
    (seedsLt : ∀ seed ∈ seeds, seed < count) :
    ∃ last, Walk successors 0 (Sequence.empty.addMany seeds) last ∧
      last.toList = discover successors count seeds := by
  have start : (Sequence.empty.addMany seeds).toList = (OrderedSet.ofList seeds).toList :=
    Sequence.toList_addMany rfl seeds
  apply exists_walk_of_discoverFrom start
  rw [Nat.zero_add]
  exact length_le_of_forall_lt (nodup_discover _ _ _) fun _ nodeMem =>
    lt_of_mem_discover bounded seedsLt nodeMem

end Graph

end ByteSignature
