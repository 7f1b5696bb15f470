import ByteSignature.Literal.Automaton
import ByteSignature.Proofs.Graph.Discovery
import ByteSignature.Proofs.Literal.Trie

/-!
# What failure links say

A node's failure node stands for the longest proper suffix of its word that a node stands
for at all, and its moves lead to the longest such suffix of its word with the byte read
behind it.  Its id is that of the longest literal its word ends with.  Completing the nodes
breadth first establishes this node by node: whatever a node is given by its failure node
belongs to a shorter word, hence to a node that is complete.
-/

namespace ByteSignature.Trie

/-! ## Overlaid pairs -/

theorem mem_or_mem_of_mem_overlay {first second : List (UInt8 × Nat)} {pair : UInt8 × Nat}
    (pairMem : pair ∈ overlay first second) : pair ∈ first ∨ pair ∈ second := by
  fun_induction overlay first second with
  | case1 second => exact .inr pairMem
  | case2 first _ => exact .inl pairMem
  | case3 a first b second _ ih =>
      rcases List.mem_cons.mp pairMem with rfl | later
      · exact .inl List.mem_cons_self
      · exact (ih later).imp_left (List.mem_cons_of_mem _)
  | case4 a first b second _ _ ih =>
      rcases List.mem_cons.mp pairMem with rfl | later
      · exact .inr List.mem_cons_self
      · exact (ih later).imp_right (List.mem_cons_of_mem _)
  | case5 a first b second _ _ ih =>
      rcases List.mem_cons.mp pairMem with rfl | later
      · exact .inl List.mem_cons_self
      · exact (ih later).imp (List.mem_cons_of_mem _) (List.mem_cons_of_mem _)

theorem lt_of_mem_cons {a b pair : UInt8 × Nat} {rest : List (UInt8 × Nat)} (less : a.1 < b.1)
    (ascending : Ascending (b :: rest)) (pairMem : pair ∈ b :: rest) : a.1 < pair.1 := by
  rcases List.mem_cons.mp pairMem with rfl | later
  · exact less
  · exact UInt8.lt_trans less ((ascending_cons.mp ascending).1 pair later)

/-- Overlaying ascending pairs gives ascending pairs. -/
theorem ascending_overlay {first second : List (UInt8 × Nat)} (firstAscending : Ascending first)
    (secondAscending : Ascending second) : Ascending (overlay first second) := by
  fun_induction overlay first second with
  | case1 second => exact secondAscending
  | case2 first _ => exact firstAscending
  | case3 a first b second less ih =>
      rcases ascending_cons.mp firstAscending with ⟨before, firstAscending⟩
      refine ascending_cons.mpr ⟨?_, ih firstAscending secondAscending⟩
      intro pair pairMem
      rcases mem_or_mem_of_mem_overlay pairMem with inFirst | inSecond
      · exact before pair inFirst
      · exact lt_of_mem_cons less secondAscending inSecond
  | case4 a first b second _ less ih =>
      rcases ascending_cons.mp secondAscending with ⟨before, secondAscending⟩
      refine ascending_cons.mpr ⟨?_, ih firstAscending secondAscending⟩
      intro pair pairMem
      rcases mem_or_mem_of_mem_overlay pairMem with inFirst | inSecond
      · exact lt_of_mem_cons less firstAscending inFirst
      · exact before pair inSecond
  | case5 a first b second notLess notGreater ih =>
      have same : a.1 = b.1 :=
        UInt8.le_antisymm (UInt8.not_lt.mp notGreater) (UInt8.not_lt.mp notLess)
      rcases ascending_cons.mp firstAscending with ⟨firstBefore, firstAscending⟩
      rcases ascending_cons.mp secondAscending with ⟨secondBefore, secondAscending⟩
      refine ascending_cons.mpr ⟨?_, ih firstAscending secondAscending⟩
      intro pair pairMem
      rcases mem_or_mem_of_mem_overlay pairMem with inFirst | inSecond
      · exact firstBefore pair inFirst
      · exact same ▸ secondBefore pair inSecond

/-- Where the first pairs have no such byte, the second count. -/
theorem lookup_overlay {first second : List (UInt8 × Nat)} (firstAscending : Ascending first)
    (symbol : UInt8) :
    (overlay first second).lookup symbol = (first.lookup symbol).or (second.lookup symbol) := by
  fun_induction overlay first second with
  | case1 second => simp
  | case2 first _ => simp
  | case3 a first b second less ih =>
      rw [List.lookup_cons, List.lookup_cons, ih (ascending_cons.mp firstAscending).2]
      cases symbol == a.1 <;> rfl
  | case4 a first b second _ less ih =>
      rcases b with ⟨lent, target⟩
      rw [List.lookup_cons, ih firstAscending]
      by_cases same : symbol = lent
      · subst same
        have missing : (a :: first).lookup symbol = none := by
          rw [List.lookup_eq_none_iff]
          intro pair pairMem
          exact bne_iff_ne.mpr (UInt8.ne_of_lt (lt_of_mem_cons less firstAscending pairMem))
        rw [missing, Option.none_or, beq_self_eq_true]
        exact List.lookup_cons_self.symm
      · simp only [List.lookup_cons, beq_eq_false_iff_ne.mpr same]
  | case5 a first b second notLess notGreater ih =>
      have same : a.1 = b.1 :=
        UInt8.le_antisymm (UInt8.not_lt.mp notGreater) (UInt8.not_lt.mp notLess)
      rw [List.lookup_cons, List.lookup_cons, List.lookup_cons,
        ih (ascending_cons.mp firstAscending).2, ← same]
      cases symbol == a.1 <;> rfl

/-! ## Updating links -/

namespace Links

theorem getD_setIfInBounds {α : Type} {values : Array α} {index : Nat}
    (lt : index < values.size) (value fallback : α) (other : Nat) :
    (values.setIfInBounds index value).getD other fallback =
      if other = index then value else values.getD other fallback := by
  rw [Array.getD_eq_getD_getElem?, Array.getD_eq_getD_getElem?]
  by_cases same : other = index
  · rw [if_pos same, same, Array.getElem?_setIfInBounds_self_of_lt lt, Option.getD_some]
  · rw [if_neg same, Array.getElem?_setIfInBounds_ne (Ne.symm same)]

/-- The links have room for some number of nodes. -/
structure Sized (links : Links) (count : Nat) : Prop where
  failure : links.failure.size = count
  moves : links.moves.size = count
  output : links.output.size = count

theorem Sized.linkChild {links : Links} {count : Nat} (sized : Sized links count)
    (child failure : Nat) : Sized (links.linkChild child failure) count where
  failure := Array.size_setIfInBounds.trans sized.failure
  moves := sized.moves
  output := Array.size_setIfInBounds.trans sized.output

theorem failureOf_linkChild {links : Links} {count : Nat} (sized : Sized links count)
    {child : Nat} (lt : child < count) (failure id : Nat) :
    (links.linkChild child failure).failureOf id =
      if id = child then failure else links.failureOf id :=
  getD_setIfInBounds (sized.failure ▸ lt) failure root id

theorem outputOf_linkChild {links : Links} {count : Nat} (sized : Sized links count)
    {child : Nat} (lt : child < count) (failure id : Nat) :
    (links.linkChild child failure).outputOf id =
      if id = child then
        if links.outputOf child = 0 then links.outputOf failure else links.outputOf child
      else links.outputOf id :=
  getD_setIfInBounds (sized.output ▸ lt) _ 0 id

end Links

/-! ## What links should say -/

variable {trie : Trie} {words literals : List (List UInt8)}

/-- Every settled node knows its failure node and its id, and every other node knows only
the literal that it stands for itself. -/
structure Settles (words literals : List (List UInt8)) (links : Links) (settled : Nat → Prop) :
    Prop where
  failure : ∀ {id : Nat} {word : List UInt8}, words[id]? = some word → settled id →
    words[links.failureOf id]? = some (suffixIn words word.tail)
  output : ∀ {id : Nat} {word : List UInt8}, words[id]? = some word → settled id →
    links.outputOf id = suffixId literals word
  pending : ∀ {id : Nat} {word : List UInt8}, words[id]? = some word → ¬ settled id →
    links.outputOf id = literalId literals word

/-- Some moves lead from a word to the nodes of the longest suffixes after each byte, other
than the root. -/
structure Advances (words : List (List UInt8)) (moves : List (UInt8 × Nat))
    (after : UInt8 → List UInt8) : Prop where
  ascending : Ascending moves
  lookup_iff : ∀ (symbol : UInt8) (target : Nat),
    moves.lookup symbol = some target ↔
      target ≠ root ∧ words[target]? = some (suffixIn words (after symbol))

/-- The nodes that are settled once some nodes are complete: the root and the children of
those. -/
def Known (trie : Trie) (finished : List Nat) (id : Nat) : Prop :=
  id = root ∨ ∃ parent ∈ finished, ∃ symbol, (symbol, id) ∈ (trie.node parent).children

/-- Some nodes are complete. -/
structure Completes (trie : Trie) (words literals : List (List UInt8)) (links : Links)
    (finished : List Nat) : Prop where
  sized : links.Sized trie.size
  settles : Settles words literals links (Known trie finished)
  advances : ∀ id ∈ finished, ∀ word, words[id]? = some word →
    Advances words (links.movesOf id) fun symbol => word ++ [symbol]

/-! ## Linking children -/

/-- Linking a child to its failure node settles it, once that node is settled. -/
theorem Settles.linkChild {links : Links} {settled : Nat → Prop}
    (settles : Settles words literals links settled) (sized : links.Sized words.length)
    (numberable : Numberable literals)
    (literalMem : ∀ literal ∈ literals, literal ∈ words)
    {child failure : Nat} {word : List UInt8} (placed : words[child]? = some word)
    (pending : ¬ settled child) (failureSettled : settled failure)
    (failurePlaced : words[failure]? = some (suffixIn words word.tail)) :
    Settles words literals (links.linkChild child failure)
      fun id => settled id ∨ id = child := by
  have childLt := (List.getElem?_eq_some_iff.mp placed).1
  constructor
  case failure =>
      intro id other otherPlaced isSettled
      rw [Links.failureOf_linkChild sized childLt]
      by_cases same : id = child
      · subst same
        rw [if_pos rfl, failurePlaced, Option.some.inj (placed.symm.trans otherPlaced)]
      · rw [if_neg same]
        exact settles.failure otherPlaced (isSettled.resolve_right same)
  case output =>
      intro id other otherPlaced isSettled
      rw [Links.outputOf_linkChild sized childLt]
      by_cases same : id = child
      · subst same
        have lent := settles.output failurePlaced failureSettled
        rw [suffixId_suffixIn literalMem] at lent
        rw [if_pos rfl, settles.pending placed pending, lent, ← suffixId_eq numberable,
          Option.some.inj (placed.symm.trans otherPlaced)]
      · rw [if_neg same]
        exact settles.output otherPlaced (isSettled.resolve_right same)
  case pending =>
      intro id other otherPlaced notSettled
      rw [not_or] at notSettled
      rw [Links.outputOf_linkChild sized childLt, if_neg notSettled.2]
      exact settles.pending otherPlaced notSettled.1

/-- Link some children, each to the failure node for its byte. -/
def Links.linkChildren (failureFor : UInt8 → Nat) (children : List (UInt8 × Nat))
    (links : Links) : Links :=
  children.foldl (fun links child => links.linkChild child.2 (failureFor child.1)) links

theorem Links.moves_linkChildren (failureFor : UInt8 → Nat) (children : List (UInt8 × Nat))
    (links : Links) : (links.linkChildren failureFor children).moves = links.moves := by
  induction children generalizing links with
  | nil => rfl
  | cons child children ih => exact ih (links.linkChild child.2 (failureFor child.1))

theorem Links.Sized.linkChildren {links : Links} {count : Nat} (sized : Sized links count)
    (failureFor : UInt8 → Nat) (children : List (UInt8 × Nat)) :
    Sized (links.linkChildren failureFor children) count := by
  induction children generalizing links with
  | nil => exact sized
  | cons child children ih => exact ih (sized.linkChild child.2 (failureFor child.1))

/-- Linking distinct children to settled failure nodes settles all of them. -/
theorem Settles.linkChildren {links : Links} {settled : Nat → Prop}
    (settles : Settles words literals links settled) (sized : links.Sized words.length)
    (numberable : Numberable literals) (literalMem : ∀ literal ∈ literals, literal ∈ words)
    {failureFor : UInt8 → Nat} {children : List (UInt8 × Nat)}
    (distinct : (children.map Prod.snd).Nodup)
    (pending : ∀ child ∈ children, ¬ settled child.2)
    (failureSettled : ∀ child ∈ children, settled (failureFor child.1))
    (placed : ∀ child ∈ children, ∃ word, words[child.2]? = some word ∧
      words[failureFor child.1]? = some (suffixIn words word.tail)) :
    Settles words literals (links.linkChildren failureFor children)
      fun id => settled id ∨ id ∈ children.map Prod.snd := by
  induction children generalizing links settled with
  | nil =>
      simp only [List.map_nil, List.not_mem_nil, or_false]
      exact settles
  | cons child children ih =>
      rw [List.map_cons, List.nodup_cons] at distinct
      obtain ⟨word, childPlaced, failurePlaced⟩ := placed child List.mem_cons_self
      have linked := settles.linkChild sized numberable literalMem childPlaced
        (pending child List.mem_cons_self) (failureSettled child List.mem_cons_self)
        failurePlaced
      have rest := ih linked (sized.linkChild _ _) distinct.2
        (by
          intro other otherMem
          rw [not_or]
          refine ⟨pending other (List.mem_cons_of_mem _ otherMem), ?_⟩
          intro same
          exact distinct.1 (same ▸ List.mem_map_of_mem otherMem))
        (fun other otherMem => .inl (failureSettled other (List.mem_cons_of_mem _ otherMem)))
        (fun other otherMem => placed other (List.mem_cons_of_mem _ otherMem))
      simp only [List.map_cons, List.mem_cons, ← or_assoc]
      exact rest

/-! ## Moves -/

/-- Where there is no move, the longest suffix is empty. -/
theorem Advances.getElem?_getD {moves : List (UInt8 × Nat)} {after : UInt8 → List UInt8}
    (advances : Advances words moves after) (spells : Spells trie words) (symbol : UInt8) :
    words[(moves.lookup symbol).getD root]? = some (suffixIn words (after symbol)) := by
  obtain ⟨target, placed⟩ :=
    List.mem_iff_getElem?.mp (suffixIn_mem spells.nil_mem (after symbol))
  by_cases isRoot : target = root
  · have missing : moves.lookup symbol = none := by
      rw [Option.eq_none_iff_forall_ne_some]
      intro other found
      rcases (advances.lookup_iff symbol other).mp found with ⟨notRoot, otherPlaced⟩
      exact notRoot ((index_eq_of_getElem? spells.nodup otherPlaced placed).trans isRoot)
    rw [missing, Option.getD_none, ← isRoot, placed]
  · rw [(advances.lookup_iff symbol target).mpr ⟨isRoot, placed⟩, Option.getD_some, placed]

/-- Children come before what the failure node lends. -/
theorem Advances.overlay {id : Nat} {word : List UInt8} (spells : Spells trie words)
    (placed : words[id]? = some word) {lent : List (UInt8 × Nat)}
    (advances : Advances words lent fun symbol => (word ++ [symbol]).tail) :
    Advances words (overlay (trie.node id).children lent) fun symbol => word ++ [symbol] where
  ascending := ascending_overlay (spells.ascending id) advances.ascending
  lookup_iff symbol target := by
    rw [lookup_overlay (spells.ascending id), ← child?]
    cases found : trie.child? id symbol with
    | some child =>
        have childPlaced := (spells.child?_eq_some_iff placed).mp found
        rw [suffixIn_of_mem (List.mem_of_getElem? childPlaced), Option.some_or,
          Option.some.injEq]
        constructor
        · rintro rfl
          exact ⟨spells.ne_root_of_placed childPlaced, childPlaced⟩
        · rintro ⟨-, targetPlaced⟩
          exact index_eq_of_getElem? spells.nodup childPlaced targetPlaced
    | none =>
        have fresh := (spells.child?_eq_none_iff placed).mp found
        rw [suffixIn_of_notMem fresh, Option.none_or]
        exact advances.lookup_iff symbol target

/-! ## Completing a node -/

/-- A node is the next to be completed: those with shorter words are complete. -/
structure IsNext (words : List (List UInt8)) (finished : List Nat) (id : Nat)
    (word : List UInt8) : Prop where
  placed : words[id]? = some word
  notMem : id ∉ finished
  shorter : ∀ {other : Nat} {otherWord : List UInt8}, words[other]? = some otherWord →
    otherWord.length < word.length → other ∈ finished

variable {finished : List Nat} {id : Nat} {word : List UInt8}

/-- Nodes with words no longer than that of the next node are settled already. -/
theorem IsNext.known (next : IsNext words finished id word) (spells : Spells trie words)
    {other : Nat} {otherWord : List UInt8} (placed : words[other]? = some otherWord)
    (length_le : otherWord.length ≤ word.length) : Known trie finished other := by
  cases otherWord using List.reverseRecOn with
  | nil => exact .inl (spells.eq_root placed)
  | append_singleton before symbol =>
      obtain ⟨parent, parentPlaced, childMem⟩ := spells.exists_parent placed
      rw [List.length_append, List.length_singleton] at length_le
      exact .inr ⟨parent, next.shorter parentPlaced length_le, symbol, childMem⟩

/-- The children of the next node are not settled yet. -/
theorem IsNext.not_known (next : IsNext words finished id word) (spells : Spells trie words)
    {child : UInt8 × Nat} (childMem : child ∈ (trie.node id).children)
    (inRange : ∀ other ∈ finished, other < trie.size) : ¬ Known trie finished child.2 := by
  have childPlaced := (spells.child_iff next.placed child.1 child.2).mp childMem
  rintro (isRoot | ⟨parent, parentMem, symbol, parentChild⟩)
  · rw [isRoot, spells.root] at childPlaced
    simp at childPlaced
  · obtain ⟨parentWord, parentPlaced⟩ := spells.exists_word (inRange parent parentMem)
    have sameWord := (spells.child_iff parentPlaced symbol child.2).mp parentChild
    rw [childPlaced, Option.some.injEq, List.append_singleton_inj] at sameWord
    rw [← sameWord.1] at parentPlaced
    exact next.notMem (index_eq_of_getElem? spells.nodup next.placed parentPlaced ▸ parentMem)

/-- The moves that a node is lent by its failure node.  The root is lent none. -/
def Links.lentTo (links : Links) (id : Nat) : List (UInt8 × Nat) :=
  if id = root then [] else links.movesOf (links.failureOf id)

/-- The failure node of a node's child for a byte. -/
def Links.lentTarget (links : Links) (id : Nat) (symbol : UInt8) : Nat :=
  ((links.lentTo id).lookup symbol).getD root

/-- The links with other moves of a node. -/
def Links.setMoves (links : Links) (id : Nat) (moves : List (UInt8 × Nat)) : Links :=
  { links with moves := links.moves.setIfInBounds id moves }

/-- A node is completed by its moves and by linking its children. -/
theorem Links.complete_eq (trie : Trie) (links : Links) (id : Nat) :
    links.complete trie id =
      (links.setMoves id (overlay (trie.node id).children (links.lentTo id))).linkChildren
        (links.lentTarget id) (trie.node id).children :=
  rfl

theorem Links.Sized.setMoves {links : Links} {count : Nat} (sized : Sized links count) (id : Nat)
    (moves : List (UInt8 × Nat)) : Sized (links.setMoves id moves) count where
  failure := sized.failure
  moves := Array.size_setIfInBounds.trans sized.moves
  output := sized.output

theorem Settles.setMoves {links : Links} {settled : Nat → Prop}
    (settles : Settles words literals links settled) (id : Nat) (moves : List (UInt8 × Nat)) :
    Settles words literals (links.setMoves id moves) settled :=
  ⟨settles.failure, settles.output, settles.pending⟩

/-- What the next node is lent leads on from the longest proper suffix of its word. -/
theorem Completes.lent {links : Links} (completes : Completes trie words literals links finished)
    (spells : Spells trie words) (next : IsNext words finished id word) :
    Advances words (links.lentTo id) fun symbol => (word ++ [symbol]).tail := by
  rw [Links.lentTo]
  by_cases isRoot : id = root
  · have wordEq : word = [] := by
      have placed := next.placed
      rw [isRoot, spells.root] at placed
      exact (Option.some.inj placed).symm
    subst wordEq
    rw [if_pos isRoot]
    constructor
    · exact ascending_nil
    · intro symbol target
      apply iff_of_false
      · simp
      · rintro ⟨notRoot, placed⟩
        exact notRoot (spells.eq_root placed)
  · have wordNe : word ≠ [] := by
      rintro rfl
      exact isRoot (spells.eq_root next.placed)
    have known := next.known spells next.placed (Nat.le_refl _)
    have failurePlaced := completes.settles.failure next.placed known
    have shorter : (suffixIn words word.tail).length < word.length := by
      have tail_lt : word.tail.length < word.length := by
        rw [List.length_tail]
        exact Nat.sub_one_lt (mt List.length_eq_zero_iff.mp wordNe)
      exact Nat.lt_of_le_of_lt (length_suffixIn_le words word.tail) tail_lt
    have advances := completes.advances _ (next.shorter failurePlaced shorter) _ failurePlaced
    rw [if_neg isRoot]
    constructor
    · exact advances.ascending
    · intro symbol target
      rw [advances.lookup_iff, List.tail_append_of_ne_nil wordNe,
        suffixIn_append_singleton spells.prefixClosed word.tail symbol]

theorem known_append_singleton_iff {other : Nat} :
    Known trie (finished ++ [id]) other ↔
      Known trie finished other ∨ other ∈ (trie.node id).children.map Prod.snd := by
  constructor
  · rintro (isRoot | ⟨parent, parentMem, symbol, childMem⟩)
    · exact .inl (.inl isRoot)
    · rcases List.mem_append.mp parentMem with old | new
      · exact .inl (.inr ⟨parent, old, symbol, childMem⟩)
      · rw [List.mem_singleton.mp new] at childMem
        exact .inr (List.mem_map_of_mem childMem)
  · rintro ((isRoot | ⟨parent, parentMem, child⟩) | isChild)
    · exact .inl isRoot
    · exact .inr ⟨parent, List.mem_append_left _ parentMem, child⟩
    · rcases List.mem_map.mp isChild with ⟨⟨symbol, _⟩, childMem, rfl⟩
      exact .inr ⟨id, List.mem_append_right _ List.mem_cons_self, symbol, childMem⟩

/-- The failure nodes of the children of the next node stand for the longest proper
suffixes of their words. -/
theorem Completes.lentTarget_placed {links : Links}
    (completes : Completes trie words literals links finished) (spells : Spells trie words)
    (next : IsNext words finished id word) (symbol : UInt8) :
    words[links.lentTarget id symbol]? = some (suffixIn words (word ++ [symbol]).tail) :=
  (completes.lent spells next).getElem?_getD spells symbol

/-- They are settled before the children are linked. -/
theorem Completes.lentTarget_known {links : Links}
    (completes : Completes trie words literals links finished) (spells : Spells trie words)
    (next : IsNext words finished id word) (symbol : UInt8) :
    Known trie finished (links.lentTarget id symbol) := by
  apply next.known spells (completes.lentTarget_placed spells next symbol)
  have length_le := length_suffixIn_le words (word ++ [symbol]).tail
  rwa [List.length_tail, List.length_append, List.length_singleton,
    Nat.add_sub_cancel] at length_le

/-- Completing the next node completes it and leaves the others complete. -/
theorem Completes.complete {links : Links}
    (completes : Completes trie words literals links finished)
    (holds : Holds trie words literals) (numberable : Numberable literals)
    (inRange : ∀ other ∈ finished, other < trie.size) (next : IsNext words finished id word) :
    Completes trie words literals (links.complete trie id) (finished ++ [id]) := by
  have spells := holds.spells
  have sized := completes.sized.setMoves id
    (overlay (trie.node id).children (links.lentTo id))
  rw [Links.complete_eq]
  constructor
  case sized => exact sized.linkChildren _ _
  case settles =>
      have same : Known trie (finished ++ [id]) = fun other =>
          Known trie finished other ∨ other ∈ (trie.node id).children.map Prod.snd :=
        funext fun other => propext known_append_singleton_iff
      rw [same]
      apply (completes.settles.setMoves id _).linkChildren (spells.length_eq ▸ sized) numberable
        holds.mem_of_mem (spells.nodup_children next.placed)
      · intro child childMem
        exact next.not_known spells childMem inRange
      · intro child _
        exact completes.lentTarget_known spells next child.1
      · intro child childMem
        exact ⟨word ++ [child.1], (spells.child_iff next.placed child.1 child.2).mp childMem,
          completes.lentTarget_placed spells next child.1⟩
  case advances =>
      intro other otherMem otherWord otherPlaced
      have idLt : id < links.moves.size := completes.sized.moves ▸ spells.lt_size next.placed
      rw [Links.movesOf, Links.moves_linkChildren, Links.setMoves, Links.getD_setIfInBounds idLt]
      rcases List.mem_append.mp otherMem with old | new
      · rw [if_neg fun same : other = id => next.notMem (same ▸ old)]
        exact completes.advances other old otherWord otherPlaced
      · have same := List.mem_singleton.mp new
        subst same
        rw [if_pos rfl, Option.some.inj (otherPlaced.symm.trans next.placed)]
        exact (completes.lent spells next).overlay spells next.placed

/-! ## Completing all nodes -/

theorem Spells.bounded (spells : Spells trie words) :
    Graph.Bounded (fun id => (trie.node id).children.map Prod.snd) trie.size := by
  intro id _ target targetMem
  rcases List.mem_map.mp targetMem with ⟨⟨symbol, _⟩, childMem, rfl⟩
  exact spells.child_lt childMem

/-- Every node comes in the breadth-first order. -/
theorem Spells.mem_order_iff (spells : Spells trie words) {id : Nat} :
    id ∈ trie.order ↔ id < trie.size := by
  have seedsLt : ∀ seed ∈ [Trie.root], seed < trie.size := by
    intro seed seedMem
    rw [List.mem_singleton.mp seedMem]
    exact spells.lt_size spells.root
  constructor
  · exact Graph.lt_of_mem_discover spells.bounded seedsLt
  · intro lt
    rw [order, Graph.mem_discover_iff spells.bounded seedsLt]
    refine ⟨Trie.root, List.mem_cons_self, ?_⟩
    obtain ⟨word, placed⟩ := spells.exists_word lt
    induction word using List.reverseRecOn generalizing id with
    | nil =>
        rw [spells.eq_root placed]
    | append_singleton before symbol ih =>
        obtain ⟨parent, parentPlaced, childMem⟩ := spells.exists_parent placed
        exact .tail (ih (spells.lt_size parentPlaced) parentPlaced)
          (List.mem_map_of_mem childMem)

/-- Shorter words come first. -/
theorem Spells.ascending_order (spells : Spells trie words) :
    trie.order.Pairwise fun first second =>
      (words.getD first []).length ≤ (words.getD second []).length := by
  suffices deeper : ∀ id, ∀ target ∈ (trie.node id).children.map Prod.snd,
      (words.getD target []).length = (words.getD id []).length + 1 by
    exact Graph.ascending_discover deeper _ _
  intro id target targetMem
  rcases List.mem_map.mp targetMem with ⟨⟨symbol, child⟩, childMem, rfl⟩
  by_cases lt : id < trie.size
  · obtain ⟨word, placed⟩ := spells.exists_word lt
    have childPlaced := (spells.child_iff placed symbol child).mp childMem
    rw [List.getD_eq_getElem?_getD, List.getD_eq_getElem?_getD, childPlaced, placed]
    simp
  · rw [node_of_le (Nat.le_of_not_lt lt)] at childMem
    cases childMem

theorem Spells.isNext (spells : Spells trie words) {rest : List Nat}
    (order_eq : trie.order = finished ++ id :: rest) (placed : words[id]? = some word) :
    IsNext words finished id word := by
  have nodup := Graph.nodup_discover (fun id => (trie.node id).children.map Prod.snd)
    trie.size [Trie.root]
  have ascending := spells.ascending_order
  rw [← order, order_eq] at nodup
  rw [order_eq] at ascending
  constructor
  · exact placed
  · intro idMem
    exact (List.nodup_append.mp nodup).2.2 id idMem id List.mem_cons_self rfl
  · intro other otherWord otherPlaced shorter
    have otherMem := spells.mem_order_iff.mpr (spells.lt_size otherPlaced)
    rw [order_eq] at otherMem
    rcases List.mem_append.mp otherMem with before | behind
    · exact before
    · have length_le : word.length ≤ otherWord.length := by
        rcases List.mem_cons.mp behind with same | later
        · rw [same, placed] at otherPlaced
          rw [Option.some.inj otherPlaced]
        · have le := (List.pairwise_cons.mp (List.pairwise_append.mp ascending).2.1).1 other later
          rwa [List.getD_eq_getElem?_getD, List.getD_eq_getElem?_getD, placed,
            otherPlaced] at le
      exact absurd shorter (Nat.not_lt.mpr length_le)

/-- At first only the root is settled. -/
theorem completes_initial (holds : Holds trie words literals)
    (numberable : Numberable literals) :
    Completes trie words literals (Links.initial trie) [] := by
  have rootIs : ∀ {id : Nat} {word : List UInt8}, words[id]? = some word →
      Known trie [] id → id = root ∧ word = [] := by
    intro id word placed known
    rcases known with isRoot | ⟨parent, parentMem, _⟩
    · rw [isRoot, holds.spells.root] at placed
      exact ⟨isRoot, (Option.some.inj placed).symm⟩
    · cases parentMem
  have output : ∀ {id : Nat} {word : List UInt8}, words[id]? = some word →
      (Links.initial trie).outputOf id = literalId literals word := by
    intro id word placed
    have inside : id < trie.nodes.size := holds.spells.lt_size placed
    rw [← holds.output_eq placed, Links.outputOf, Links.initial, node]
    simp [Array.getD_eq_getD_getElem?, inside]
  constructor
  case sized =>
      constructor
      · exact Array.size_replicate
      · exact Array.size_replicate
      · exact Array.size_map
  case settles =>
      constructor
      · intro id word placed known
        obtain ⟨rfl, rfl⟩ := rootIs placed known
        have rootFailure : (Links.initial trie).failureOf root = root := by
          simp [Links.failureOf, Links.initial, Array.getD_eq_getD_getElem?,
            holds.spells.lt_size placed]
        rw [rootFailure, holds.spells.root]
        rfl
      · intro id word placed known
        obtain ⟨rfl, rfl⟩ := rootIs placed known
        rw [output placed, suffixId, literalId_eq_zero_iff numberable]
        exact fun nilMem => numberable.ne_nil [] nilMem rfl
      · intro id word placed _
        exact output placed
  case advances =>
      intro id idMem
      cases idMem

/-- The links of a trie are complete. -/
theorem completes_links (holds : Holds trie words literals) (numberable : Numberable literals) :
    Completes trie words literals trie.links trie.order := by
  suffices run : ∀ rest finished links, trie.order = finished ++ rest →
      Completes trie words literals links finished →
      Completes trie words literals (rest.foldl (Links.complete trie) links) trie.order by
    exact run trie.order [] _ rfl (completes_initial holds numberable)
  intro rest
  induction rest with
  | nil =>
      intro finished links order_eq completes
      rw [List.append_nil] at order_eq
      rw [order_eq]
      exact completes
  | cons id rest ih =>
      intro finished links order_eq completes
      have idLt : id < trie.size := by
        rw [← holds.spells.mem_order_iff, order_eq]
        exact List.mem_append_right _ List.mem_cons_self
      obtain ⟨word, placed⟩ := holds.spells.exists_word idLt
      have inRange : ∀ other ∈ finished, other < trie.size := by
        intro other otherMem
        rw [← holds.spells.mem_order_iff, order_eq]
        exact List.mem_append_left _ otherMem
      apply ih (finished ++ [id])
      · rw [order_eq, List.append_assoc, List.singleton_append]
      · exact completes.complete holds numberable inRange (holds.spells.isNext order_eq placed)

/-- Every node leads on to the longest suffixes of its word with a byte behind. -/
theorem Holds.advances (holds : Holds trie words literals) (numberable : Numberable literals)
    (placed : words[id]? = some word) :
    Advances words (trie.links.movesOf id) fun symbol => word ++ [symbol] :=
  (completes_links holds numberable).advances id
    (holds.spells.mem_order_iff.mpr (holds.spells.lt_size placed)) word placed

/-- Every node carries the id of the longest literal that its word ends with. -/
theorem Holds.outputOf_eq (holds : Holds trie words literals) (numberable : Numberable literals)
    (placed : words[id]? = some word) : trie.links.outputOf id = suffixId literals word := by
  apply (completes_links holds numberable).settles.output placed
  cases word using List.reverseRecOn with
  | nil => exact .inl (holds.spells.eq_root placed)
  | append_singleton before symbol =>
      obtain ⟨parent, parentPlaced, childMem⟩ := holds.spells.exists_parent placed
      have parentMem := holds.spells.mem_order_iff.mpr (holds.spells.lt_size parentPlaced)
      exact .inr ⟨parent, parentMem, symbol, childMem⟩

end ByteSignature.Trie
