import ByteSignature.Proofs.Graph.Discovery

/-!
# In which order discovery lists nodes

Whatever is to stand in front of a successor has to be listed by the time the successor is
met.  In an order where that holds, because such a node is the seed, or stands further to the
front among the same successors, or succeeds an earlier node, discovery lists the nodes along
the order.  Each listing on the way is an initial segment of it, which already settles where
the next node belongs.
-/

namespace ByteSignature.Graph

/-- The order puts the nodes that the seed reaches into a row, and what comes before a
successor of a node is met before it. -/
structure Schedules (successors : Nat → List Nat) (seed : Nat) (before : Nat → Nat → Prop) :
    Prop where
  asymm : ∀ {first second}, before first second → ¬ before second first
  total : ∀ {first second}, Reaches successors seed first → Reaches successors seed second →
    before first second ∨ first = second ∨ before second first
  met : ∀ {node target earlier done later}, Reaches successors seed node →
    successors node = done ++ target :: later → before earlier target →
      earlier = seed ∨ earlier ∈ done ∨ ∃ other, before other node ∧ earlier ∈ successors other

/-- The listing holds the first nodes of the order, in order. -/
structure Segment (successors : Nat → List Nat) (seed : Nat) (before : Nat → Nat → Prop)
    (listed : List Nat) : Prop where
  seed_mem : seed ∈ listed
  reached : ∀ node ∈ listed, Reaches successors seed node
  ascending : listed.Pairwise before
  closed : ∀ node ∈ listed, ∀ earlier, before earlier node → earlier ∈ listed

variable {successors : Nat → List Nat} {seed : Nat} {before : Nat → Nat → Prop}

namespace Segment

variable {found : OrderedSet Nat}

/-- A node that has all earlier ones in the listing may be the next. -/
theorem insert (schedules : Schedules successors seed before)
    (segment : Segment successors seed before found.toList) {target : Nat}
    (targetReached : Reaches successors seed target)
    (earlierMem : ∀ earlier, before earlier target → earlier ∈ found.toList) :
    Segment successors seed before (found.insert target).toList := by
  rw [OrderedSet.toList_insert]
  by_cases present : target ∈ found.toList
  · rwa [if_pos present]
  · rw [if_neg present]
    constructor
    · exact List.mem_append_left _ segment.seed_mem
    · intro node nodeMem
      rcases List.mem_append.mp nodeMem with old | new
      · exact segment.reached node old
      · rwa [List.mem_singleton.mp new]
    · rw [List.pairwise_append]
      refine ⟨segment.ascending, List.pairwise_singleton _ _, ?_⟩
      intro node nodeMem other otherMem
      rw [List.mem_singleton.mp otherMem]
      -- The listing is closed, so a node that the target came before would bring it along.
      rcases schedules.total (segment.reached node nodeMem) targetReached with
        before | rfl | behind
      · exact before
      · exact absurd nodeMem present
      · exact absurd (segment.closed node nodeMem target behind) present
    · intro node nodeMem earlier isEarlier
      apply List.mem_append_left
      rcases List.mem_append.mp nodeMem with old | new
      · exact segment.closed node old earlier isEarlier
      · rw [List.mem_singleton.mp new] at isEarlier
        exact earlierMem earlier isEarlier

/-- The successors of a node may follow once those of all earlier nodes are listed. -/
theorem insertMany (schedules : Schedules successors seed before) {node : Nat}
    (nodeReached : Reaches successors seed node) {done rest : List Nat}
    (whole : successors node = done ++ rest)
    (segment : Segment successors seed before found.toList)
    (doneMem : ∀ target ∈ done, target ∈ found.toList)
    (earlierMem : ∀ other, before other node →
      ∀ target ∈ successors other, target ∈ found.toList) :
    Segment successors seed before (found.insertMany rest).toList := by
  induction rest generalizing done found with
  | nil => exact segment
  | cons target rest ih =>
      have grows := (found.prefix_toList_insert target).subset
      have wholeNext : successors node = (done ++ [target]) ++ rest := by
        rw [whole, List.append_assoc]
        rfl
      apply ih wholeNext
      · have leads : Leads successors node target := by
          rw [Leads, whole]
          exact List.mem_append_right _ List.mem_cons_self
        apply segment.insert schedules (nodeReached.tail leads)
        intro earlier isEarlier
        rcases schedules.met nodeReached whole isEarlier with
          rfl | among | ⟨other, otherBefore, succeeds⟩
        · exact segment.seed_mem
        · exact doneMem earlier among
        · exact earlierMem other otherBefore earlier succeeds
      · intro other otherMem
        rcases List.mem_append.mp otherMem with old | new
        · exact grows (doneMem other old)
        · rw [List.mem_singleton.mp new]
          exact OrderedSet.mem_toList_insert.mpr (.inr rfl)
      · intro other otherBefore next nextMem
        exact grows (earlierMem other otherBefore next nextMem)

/-- Visiting the next node keeps the listing an initial segment. -/
theorem expand (schedules : Schedules successors seed before)
    (segment : Segment successors seed before found.toList) {next node : Nat}
    (expanded : Expanded successors next found.toList) (nodeAt : found.toList[next]? = some node) :
    Segment successors seed before (found.insertMany (successors node)).toList := by
  obtain ⟨nextLt, atNext⟩ := List.getElem?_eq_some_iff.mp nodeAt
  have nodeMem := List.mem_of_getElem? nodeAt
  have split : found.toList = found.toList.take next ++ node :: found.toList.drop (next + 1) := by
    rw [← atNext, ← List.drop_eq_getElem_cons nextLt, List.take_append_drop]
  have ascending := segment.ascending
  rw [split, List.pairwise_append, List.pairwise_cons] at ascending
  apply segment.insertMany schedules (segment.reached node nodeMem) (List.nil_append _).symm
  · exact fun _ absurdMem => nomatch absurdMem
  · intro other otherBefore target targetMem
    refine expanded other ?_ target targetMem
    have otherMem := segment.closed node nodeMem other otherBefore
    rw [split] at otherMem
    rcases List.mem_append.mp otherMem with visited | pending
    · exact visited
    · rcases List.mem_cons.mp pending with rfl | behind
      · exact absurd otherBefore (schedules.asymm otherBefore)
      · exact absurd otherBefore (schedules.asymm (ascending.2.1.1 other behind))

end Segment

theorem segment_discoverFrom (schedules : Schedules successors seed before) {rounds next : Nat}
    {found : OrderedSet Nat} (segment : Segment successors seed before found.toList)
    (expanded : Expanded successors next found.toList) :
    Segment successors seed before (discoverFrom successors rounds next found).toList := by
  induction rounds generalizing next found with
  | zero => exact segment
  | succ rounds ih =>
      rw [discoverFrom, OrderedSet.getElem?_items]
      split
      · exact segment
      · rename_i node nodeAt
        exact ih (segment.expand schedules expanded nodeAt) (expanded.expand nodeAt)

/-- Discovery from one seed lists the nodes in the order. -/
theorem pairwise_discover (schedules : Schedules successors seed before)
    (first : ∀ node, ¬ before node seed) (count : Nat) :
    (discover successors count [seed]).Pairwise before := by
  have start : Segment successors seed before (OrderedSet.ofList [seed]).toList := by
    rw [toList_ofList_singleton]
    constructor
    · exact List.mem_singleton_self seed
    · intro node nodeMem
      rw [List.mem_singleton.mp nodeMem]
    · exact List.pairwise_singleton _ _
    · intro node nodeMem earlier isEarlier
      rw [List.mem_singleton.mp nodeMem] at isEarlier
      exact absurd isEarlier (first earlier)
  exact (segment_discoverFrom schedules start (by simp [Expanded])).ascending

end ByteSignature.Graph
