import ByteSignature.Graph
import Mathlib.Data.List.Forall2
import Mathlib.Data.List.Perm.Subperm
import Mathlib.Logic.Relation
import Mathlib.Logic.Relator

/-!
# What discovery finds

Discovery lists exactly the nodes that the seeds reach, as long as it is given one
round for every node of the graph; rounds beyond that change nothing.  Nodes that are
fewer steps away from the seeds come first.  The listing is
moreover independent of how nodes are numbered: two graphs whose nodes correspond, with
corresponding successors in the same order, are listed in corresponding orders.
-/

namespace ByteSignature

namespace OrderedSet

variable {α : Type} [BEq α] [Hashable α] [LawfulBEq α] [LawfulHashable α]

omit [LawfulBEq α] [LawfulHashable α] in
theorem getElem?_items (set : OrderedSet α) (index : Nat) :
    set.items[index]? = set.toList[index]? := by
  simp [toList]

theorem prefix_toList_insert (set : OrderedSet α) (item : α) :
    set.toList <+: (set.insert item).toList := by
  rw [toList_insert]
  split
  · exact List.prefix_refl _
  · exact List.prefix_append _ _

theorem prefix_toList_insertMany (set : OrderedSet α) (items : List α) :
    set.toList <+: (set.insertMany items).toList := by
  induction items generalizing set with
  | nil => exact List.prefix_refl _
  | cons item items ih =>
      exact (set.prefix_toList_insert item).trans (ih (set.insert item))

/-! ## Corresponding sets -/

section Correspondence

variable {β : Type} [BEq β] [Hashable β] [LawfulBEq β] [LawfulHashable β]

/-- Inserting corresponding members into corresponding sets keeps them
corresponding. -/
theorem forall₂_toList_insert {R : α → β → Prop} (unique : Relator.BiUnique R)
    {first : OrderedSet α} {second : OrderedSet β} {item : α} {other : β}
    (sets : List.Forall₂ R first.toList second.toList) (items : R item other) :
    List.Forall₂ R (first.insert item).toList (second.insert other).toList := by
  have mem_iff : item ∈ first.toList ↔ other ∈ second.toList :=
    List.rel_mem unique items sets
  rw [toList_insert, toList_insert]
  by_cases present : item ∈ first.toList
  · rw [if_pos present, if_pos (mem_iff.mp present)]
    exact sets
  · rw [if_neg present, if_neg (mt mem_iff.mpr present)]
    exact List.rel_append sets (.cons items .nil)

theorem forall₂_toList_insertMany {R : α → β → Prop} (unique : Relator.BiUnique R)
    {first : OrderedSet α} {second : OrderedSet β} {items : List α} {others : List β}
    (sets : List.Forall₂ R first.toList second.toList)
    (lists : List.Forall₂ R items others) :
    List.Forall₂ R (first.insertMany items).toList (second.insertMany others).toList := by
  induction lists generalizing first second with
  | nil => exact sets
  | cons head _ ih => exact ih (forall₂_toList_insert unique sets head)

end Correspondence

end OrderedSet

namespace Graph

/-- One node is a listed successor of another. -/
def Leads (successors : Nat → List Nat) (source target : Nat) : Prop :=
  target ∈ successors source

/-- One node reaches another along successors. -/
abbrev Reaches (successors : Nat → List Nat) : Nat → Nat → Prop :=
  Relation.ReflTransGen (Leads successors)

/-- The successors of the first `next` listed nodes are listed. -/
def Expanded (successors : Nat → List Nat) (next : Nat) (listed : List Nat) : Prop :=
  ∀ node ∈ listed.take next, ∀ target ∈ successors node, target ∈ listed

variable {successors : Nat → List Nat}

/-! ## Reachability -/

theorem prefix_discoverFrom (rounds next : Nat) (found : OrderedSet Nat) :
    found.toList <+: (discoverFrom successors rounds next found).toList := by
  induction rounds generalizing next found with
  | zero => exact List.prefix_refl _
  | succ rounds ih =>
      rw [discoverFrom]
      split
      · exact List.prefix_refl _
      · exact (found.prefix_toList_insertMany _).trans (ih _ _)

/-- Listing the successors of the next node leaves one more node expanded. -/
theorem Expanded.expand {next node : Nat} {found : OrderedSet Nat}
    (expanded : Expanded successors next found.toList) (nodeAt : found.toList[next]? = some node) :
    Expanded successors (next + 1) (found.insertMany (successors node)).toList := by
  obtain ⟨added, eq⟩ := found.prefix_toList_insertMany (successors node)
  have bound : next + 1 ≤ found.toList.length := (List.getElem?_eq_some_iff.mp nodeAt).1
  intro other otherMem target targetMem
  rw [OrderedSet.mem_toList_insertMany]
  rw [← eq, List.take_append_of_le_length bound, List.take_add_one, nodeAt] at otherMem
  rcases List.mem_append.mp otherMem with earlier | last
  · exact Or.inl (expanded other earlier target targetMem)
  · rw [Option.toList_some, List.mem_singleton] at last
    exact Or.inr (last ▸ targetMem)

/-- Each round expands one more node, until there is none left. -/
theorem expanded_discoverFrom (rounds : Nat) {next : Nat} {found : OrderedSet Nat}
    (expanded : Expanded successors next found.toList) :
    Expanded successors (next + rounds)
      (discoverFrom successors rounds next found).toList := by
  induction rounds generalizing next found with
  | zero => exact expanded
  | succ rounds ih =>
      rw [discoverFrom, OrderedSet.getElem?_items]
      split
      · rename_i exhausted
        have short : found.toList.length ≤ next := List.getElem?_eq_none_iff.mp exhausted
        intro node nodeMem
        apply expanded
        rw [List.take_of_length_le short]
        exact List.mem_of_mem_take nodeMem
      · rename_i node nodeAt
        rw [show next + (rounds + 1) = next + 1 + rounds by omega]
        exact ih (expanded.expand nodeAt)

/-- Whatever is listed is reached from what was listed before. -/
theorem exists_reaches_of_mem_discoverFrom {rounds next : Nat} {found : OrderedSet Nat}
    {node : Nat} (nodeMem : node ∈ (discoverFrom successors rounds next found).toList) :
    ∃ seed ∈ found.toList, Reaches successors seed node := by
  induction rounds generalizing next found with
  | zero => exact ⟨node, nodeMem, .refl⟩
  | succ rounds ih =>
      rw [discoverFrom, OrderedSet.getElem?_items] at nodeMem
      split at nodeMem
      · exact ⟨node, nodeMem, .refl⟩
      · rename_i expandedNode nodeAt
        obtain ⟨seed, seedMem, reaches⟩ := ih nodeMem
        rcases OrderedSet.mem_toList_insertMany.mp seedMem with old | new
        · exact ⟨seed, old, reaches⟩
        · exact ⟨expandedNode, List.mem_of_getElem? nodeAt, .head new reaches⟩

/-- Whatever is listed was listed before or succeeds a listed node. -/
theorem mem_or_exists_source_of_mem_discoverFrom {rounds next : Nat} {found : OrderedSet Nat}
    {node : Nat} (nodeMem : node ∈ (discoverFrom successors rounds next found).toList) :
    node ∈ found.toList ∨
      ∃ source ∈ (discoverFrom successors rounds next found).toList, node ∈ successors source := by
  induction rounds generalizing next found with
  | zero => exact .inl nodeMem
  | succ rounds ih =>
      rw [discoverFrom, OrderedSet.getElem?_items] at nodeMem ⊢
      split at nodeMem
      · exact .inl nodeMem
      · rename_i expandedNode nodeAt
        rcases ih nodeMem with listed | succeeds
        · rcases OrderedSet.mem_toList_insertMany.mp listed with old | new
          · exact .inl old
          · have expandedMem : expandedNode ∈ (found.insertMany (successors expandedNode)).toList :=
              OrderedSet.mem_toList_insertMany.mpr (.inl (List.mem_of_getElem? nodeAt))
            exact .inr ⟨expandedNode, (prefix_discoverFrom _ _ _).subset expandedMem, new⟩
        · exact .inr succeeds

/-- A node that is discovered is a seed or succeeds one that is discovered. -/
theorem mem_or_exists_source_of_mem_discover {count : Nat} {seeds : List Nat} {node : Nat}
    (nodeMem : node ∈ discover successors count seeds) :
    node ∈ seeds ∨ ∃ source ∈ discover successors count seeds, node ∈ successors source :=
  (mem_or_exists_source_of_mem_discoverFrom nodeMem).imp_left OrderedSet.mem_toList_ofList.mp

/-- The numbers below `count` are closed under successors. -/
def Bounded (successors : Nat → List Nat) (count : Nat) : Prop :=
  ∀ node < count, ∀ target ∈ successors node, target < count

theorem Reaches.lt {count source target : Nat} (bounded : Bounded successors count)
    (reaches : Reaches successors source target) (sourceLt : source < count) :
    target < count := by
  induction reaches with
  | refl => exact sourceLt
  | tail _ last ih => exact bounded _ ih _ last

theorem length_le_of_forall_lt {listed : List Nat} {count : Nat} (nodup : listed.Nodup)
    (lt : ∀ node ∈ listed, node < count) : listed.length ≤ count := by
  have subset : listed ⊆ List.range count := fun node nodeMem =>
    List.mem_range.mpr (lt node nodeMem)
  simpa using (List.subperm_of_subset nodup subset).length_le

theorem expanded_discover {count rounds : Nat} {seeds : List Nat}
    (bounded : Bounded successors count) (seedsLt : ∀ seed ∈ seeds, seed < count)
    (enough : count ≤ rounds) :
    ∀ node ∈ discover successors rounds seeds, ∀ target ∈ successors node,
      target ∈ discover successors rounds seeds := by
  have lt : ∀ node ∈ discover successors rounds seeds, node < count := by
    intro node nodeMem
    obtain ⟨seed, seedMem, reaches⟩ := exists_reaches_of_mem_discoverFrom nodeMem
    exact reaches.lt bounded (seedsLt seed (OrderedSet.mem_toList_ofList.mp seedMem))
  have length_le := length_le_of_forall_lt (nodup_discover _ _ _) lt
  have start : Expanded successors 0 (OrderedSet.ofList seeds).toList := by
    simp [Expanded]
  have expanded := expanded_discoverFrom rounds start
  intro node nodeMem target targetMem
  apply expanded node _ target targetMem
  rw [List.take_of_length_le (by rw [Nat.zero_add]; exact Nat.le_trans length_le enough)]
  exact nodeMem

/-- Discovery lists exactly what the seeds reach. -/
theorem mem_discover_iff {count : Nat} {seeds : List Nat}
    (bounded : Bounded successors count) (seedsLt : ∀ seed ∈ seeds, seed < count)
    {node : Nat} :
    node ∈ discover successors count seeds ↔
      ∃ seed ∈ seeds, Reaches successors seed node := by
  constructor
  · intro nodeMem
    obtain ⟨seed, seedMem, reaches⟩ := exists_reaches_of_mem_discoverFrom nodeMem
    exact ⟨seed, OrderedSet.mem_toList_ofList.mp seedMem, reaches⟩
  · rintro ⟨seed, seedMem, reaches⟩
    induction reaches with
    | refl =>
        exact (prefix_discoverFrom _ _ _).subset (OrderedSet.mem_toList_ofList.mpr seedMem)
    | tail _ last ih =>
        exact expanded_discover bounded seedsLt (Nat.le_refl _) _ ih _ last

theorem lt_of_mem_discover {count : Nat} {seeds : List Nat}
    (bounded : Bounded successors count) (seedsLt : ∀ seed ∈ seeds, seed < count)
    {node : Nat} (nodeMem : node ∈ discover successors count seeds) : node < count := by
  rcases (mem_discover_iff bounded seedsLt).mp nodeMem with ⟨seed, seedMem, reaches⟩
  exact reaches.lt bounded (seedsLt seed seedMem)

theorem toList_ofList_singleton (seed : Nat) : (OrderedSet.ofList [seed]).toList = [seed] := by
  rw [OrderedSet.ofList, OrderedSet.insertMany, List.foldl_cons, List.foldl_nil,
    OrderedSet.toList_insert]
  rfl

/-- The first seed is listed first. -/
theorem head?_discover (count seed : Nat) :
    (discover successors count [seed]).head? = some seed := by
  have isPrefix := @prefix_discoverFrom successors count 0
    (OrderedSet.ofList [seed])
  rw [toList_ofList_singleton] at isPrefix
  rcases isPrefix with ⟨rest, eq⟩
  rw [discover, ← eq]
  rfl

/-! ## Breadth first -/

/-- The listing ascends by depth, and is at most one level ahead of the nodes from position
`next` on. -/
structure Layered (depth : Nat → Nat) (next : Nat) (listed : List Nat) : Prop where
  ascending : listed.Pairwise fun first second => depth first ≤ depth second
  ahead : ∀ source ∈ listed.drop next, ∀ node ∈ listed, depth node ≤ depth source + 1

/-- Expanding the next node appends nodes that are one level below it. -/
theorem Layered.expand {depth : Nat → Nat} {next : Nat} {found : OrderedSet Nat} {node : Nat}
    (layered : Layered depth next found.toList) (nodeAt : found.toList[next]? = some node)
    (deeper : ∀ target ∈ successors node, depth target = depth node + 1) :
    Layered depth (next + 1) (found.insertMany (successors node)).toList := by
  obtain ⟨added, eq⟩ := found.prefix_toList_insertMany (successors node)
  have nextLt := (List.getElem?_eq_some_iff.mp nodeAt).1
  have atNext : found.toList.drop next = node :: found.toList.drop (next + 1) := by
    rw [List.drop_eq_getElem_cons nextLt, (List.getElem?_eq_some_iff.mp nodeAt).2]
  have addedDepth : ∀ target ∈ added, depth target = depth node + 1 := by
    have nodup := (found.insertMany (successors node)).nodup_toList
    rw [← eq] at nodup
    intro target targetMem
    have listed : target ∈ (found.insertMany (successors node)).toList :=
      eq ▸ List.mem_append_right _ targetMem
    rcases OrderedSet.mem_toList_insertMany.mp listed with old | new
    · exact absurd rfl ((List.nodup_append.mp nodup).2.2 target old target targetMem)
    · exact deeper target new
  have oldDepth : ∀ other ∈ found.toList, depth other ≤ depth node + 1 := by
    apply layered.ahead
    rw [atNext]
    exact List.mem_cons_self
  rw [← eq]
  constructor
  · rw [List.pairwise_append]
    refine ⟨layered.ascending, ?_, ?_⟩
    · apply List.pairwise_of_forall_mem_list
      intro first firstMem second secondMem
      exact Nat.le_of_eq ((addedDepth first firstMem).trans (addedDepth second secondMem).symm)
    · intro first firstMem second secondMem
      rw [addedDepth second secondMem]
      exact oldDepth first firstMem
  · rw [List.drop_append_of_le_length nextLt]
    intro source sourceMem other otherMem
    have sourceDepth : depth node ≤ depth source := by
      rcases List.mem_append.mp sourceMem with old | new
      · have behind := layered.ascending.sublist (List.drop_sublist next _)
        rw [atNext] at behind
        exact (List.pairwise_cons.mp behind).1 source old
      · rw [addedDepth source new]
        exact Nat.le_succ _
    have otherDepth : depth other ≤ depth node + 1 := by
      rcases List.mem_append.mp otherMem with old | new
      · exact oldDepth other old
      · exact Nat.le_of_eq (addedDepth other new)
    omega

theorem ascending_discoverFrom {depth : Nat → Nat}
    (deeper : ∀ node, ∀ target ∈ successors node, depth target = depth node + 1)
    {rounds next : Nat} {found : OrderedSet Nat} (layered : Layered depth next found.toList) :
    (discoverFrom successors rounds next found).toList.Pairwise
      fun first second => depth first ≤ depth second := by
  induction rounds generalizing next found with
  | zero => exact layered.ascending
  | succ rounds ih =>
      rw [discoverFrom, OrderedSet.getElem?_items]
      split
      · exact layered.ascending
      · rename_i node nodeAt
        exact ih (layered.expand nodeAt (deeper node))

/-- Where every step leads one level down, discovery from one seed lists the levels in
order. -/
theorem ascending_discover {depth : Nat → Nat}
    (deeper : ∀ node, ∀ target ∈ successors node, depth target = depth node + 1)
    (count seed : Nat) :
    (discover successors count [seed]).Pairwise
      fun first second => depth first ≤ depth second := by
  apply ascending_discoverFrom deeper
  rw [toList_ofList_singleton]
  constructor
  · exact List.pairwise_singleton _ _
  · intro source sourceMem node nodeMem
    rw [List.mem_singleton.mp sourceMem, List.mem_singleton.mp nodeMem]
    exact Nat.le_succ _

/-! ## Rounds to spare -/

/-- Once the listed nodes are used up, further rounds change nothing. -/
theorem discoverFrom_of_length_le {rounds next : Nat} {found : OrderedSet Nat}
    (exhausted : found.toList.length ≤ next) :
    discoverFrom successors rounds next found = found := by
  cases rounds with
  | zero => rfl
  | succ rounds =>
      rw [discoverFrom, OrderedSet.getElem?_items, List.getElem?_eq_none exhausted]

theorem discoverFrom_add (rounds more next : Nat) (found : OrderedSet Nat) :
    discoverFrom successors (rounds + more) next found =
      discoverFrom successors more (next + rounds)
        (discoverFrom successors rounds next found) := by
  induction rounds generalizing next found with
  | zero => rw [Nat.zero_add]; rfl
  | succ rounds ih =>
      rw [show rounds + 1 + more = rounds + more + 1 by omega, discoverFrom, discoverFrom]
      split
      · rename_i exhausted
        rw [OrderedSet.getElem?_items] at exhausted
        have short := List.getElem?_eq_none_iff.mp exhausted
        exact (discoverFrom_of_length_le (by omega)).symm
      · rw [ih, show next + 1 + rounds = next + (rounds + 1) by omega]

/-- Rounds beyond one for every node change nothing. -/
theorem discover_eq_of_le {count rounds : Nat} {seeds : List Nat}
    (bounded : Bounded successors count) (seedsLt : ∀ seed ∈ seeds, seed < count)
    (enough : count ≤ rounds) :
    discover successors rounds seeds = discover successors count seeds := by
  obtain ⟨more, rfl⟩ := Nat.exists_eq_add_of_le enough
  have length_le : (discover successors count seeds).length ≤ count :=
    length_le_of_forall_lt (nodup_discover _ _ _) fun _ nodeMem =>
      lt_of_mem_discover bounded seedsLt nodeMem
  rw [discover, discoverFrom_add, Nat.zero_add]
  exact congrArg OrderedSet.toList (discoverFrom_of_length_le length_le)

/-! ## Corresponding graphs -/

theorem forall₂_discoverFrom {R : Nat → Nat → Prop} (unique : Relator.BiUnique R)
    {successors2 : Nat → List Nat}
    (corresponds : ∀ ⦃node other⦄, R node other →
      List.Forall₂ R (successors node) (successors2 other))
    (rounds next : Nat) {found found2 : OrderedSet Nat}
    (sets : List.Forall₂ R found.toList found2.toList) :
    List.Forall₂ R (discoverFrom successors rounds next found).toList
      (discoverFrom successors2 rounds next found2).toList := by
  induction rounds generalizing next found found2 with
  | zero => exact sets
  | succ rounds ih =>
      rw [discoverFrom, discoverFrom, OrderedSet.getElem?_items, OrderedSet.getElem?_items]
      have length_eq := sets.length_eq
      by_cases inside : next < found.toList.length
      · have inside2 : next < found2.toList.length := length_eq ▸ inside
        rw [List.getElem?_eq_getElem inside, List.getElem?_eq_getElem inside2]
        apply ih
        apply OrderedSet.forall₂_toList_insertMany unique sets
        exact corresponds (sets.get inside inside2)
      · rw [List.getElem?_eq_none (by omega), List.getElem?_eq_none (by omega)]
        exact sets

/-- Corresponding graphs are listed in corresponding orders. -/
theorem forall₂_discover {R : Nat → Nat → Prop} (unique : Relator.BiUnique R)
    {successors2 : Nat → List Nat}
    (corresponds : ∀ ⦃node other⦄, R node other →
      List.Forall₂ R (successors node) (successors2 other))
    {count count2 seed seed2 : Nat} (seeds : R seed seed2)
    (bounded : Bounded successors count) (seedLt : seed < count)
    (bounded2 : Bounded successors2 count2) (seed2Lt : seed2 < count2) :
    List.Forall₂ R (discover successors count [seed])
      (discover successors2 count2 [seed2]) := by
  -- The graphs may have different numbers of nodes, so both get the larger one as rounds.
  rw [← discover_eq_of_le bounded (by simpa using seedLt) (Nat.le_max_left count count2),
    ← discover_eq_of_le bounded2 (by simpa using seed2Lt) (Nat.le_max_right count count2)]
  apply forall₂_discoverFrom unique corresponds
  apply OrderedSet.forall₂_toList_insertMany unique
  · exact .nil
  · exact .cons seeds .nil

end Graph

end ByteSignature
