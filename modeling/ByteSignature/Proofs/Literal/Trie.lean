import ByteSignature.Literal.Trie
import ByteSignature.Proofs.Graph.Association
import ByteSignature.Proofs.Graph.Numbering
import ByteSignature.Proofs.Literal.Suffix

/-!
# The nodes of a trie

Every node of a trie stands for a word of its own: the root for the empty word, and the
child of a node for a byte for the word of the node with that byte behind it.  The words of
a literal set's trie are the prefixes of its literals, and the node of a literal carries
the literal's id.
-/

namespace ByteSignature.Trie

/-! ## Ascending pairs -/

/-- The bytes of some pairs ascend strictly. -/
def Ascending {α : Type} (pairs : List (UInt8 × α)) : Prop :=
  pairs.Pairwise fun first second => first.1 < second.1

theorem ascending_nil {α : Type} : Ascending ([] : List (UInt8 × α)) :=
  List.Pairwise.nil

theorem ascending_cons {α : Type} {head : UInt8 × α} {rest : List (UInt8 × α)} :
    Ascending (head :: rest) ↔ (∀ pair ∈ rest, head.1 < pair.1) ∧ Ascending rest :=
  List.pairwise_cons

theorem Ascending.nodup {α : Type} {pairs : List (UInt8 × α)} (ascending : Ascending pairs) :
    (pairs.map Prod.fst).Nodup := by
  rw [List.Nodup, List.pairwise_map]
  apply List.Pairwise.imp _ ascending
  intro first second lt eq
  rw [eq] at lt
  exact UInt8.lt_irrefl _ lt

theorem Ascending.lookup_eq_some_iff {α : Type} {pairs : List (UInt8 × α)}
    (ascending : Ascending pairs) {symbol : UInt8} {value : α} :
    pairs.lookup symbol = some value ↔ (symbol, value) ∈ pairs :=
  lookup_eq_some_iff_mem ascending.nodup

theorem mem_insertSorted {α : Type} {symbol : UInt8} {value : α} {pairs : List (UInt8 × α)}
    {pair : UInt8 × α} :
    pair ∈ insertSorted symbol value pairs ↔ pair = (symbol, value) ∨ pair ∈ pairs := by
  induction pairs with
  | nil => simp [insertSorted]
  | cons head rest ih =>
      rw [insertSorted]
      split
      · simp
      · simp only [List.mem_cons, ih]
        tauto

/-- Inserting a new byte keeps the bytes ascending. -/
theorem ascending_insertSorted {α : Type} {symbol : UInt8} (value : α)
    {pairs : List (UInt8 × α)} (ascending : Ascending pairs)
    (fresh : symbol ∉ pairs.map Prod.fst) : Ascending (insertSorted symbol value pairs) := by
  induction pairs with
  | nil => exact List.pairwise_singleton _ _
  | cons head rest ih =>
      rw [ascending_cons] at ascending
      rw [List.map_cons, List.mem_cons, not_or] at fresh
      rw [insertSorted]
      split
      · rename_i before
        rw [ascending_cons, ascending_cons]
        refine ⟨?_, ascending⟩
        intro pair pairMem
        rcases List.mem_cons.mp pairMem with rfl | later
        · exact before
        · exact UInt8.lt_trans before (ascending.1 pair later)
      · rename_i notBefore
        have behind : head.1 < symbol :=
          UInt8.lt_of_le_of_ne (UInt8.not_lt.mp notBefore) (Ne.symm fresh.1)
        rw [ascending_cons]
        refine ⟨?_, ih ascending.2 fresh.2⟩
        intro pair pairMem
        rcases mem_insertSorted.mp pairMem with rfl | later
        · exact behind
        · exact ascending.1 pair later

/-! ## Words of nodes -/

/-- The nodes stand for the listed words. -/
structure Spells (trie : Trie) (words : List (List UInt8)) : Prop where
  length_eq : words.length = trie.size
  nodup : words.Nodup
  root : words[Trie.root]? = some []
  ascending : ∀ id, Ascending (trie.node id).children
  child_iff : ∀ {id : Nat} {word : List UInt8}, words[id]? = some word →
    ∀ (symbol : UInt8) (child : Nat),
      (symbol, child) ∈ (trie.node id).children ↔ words[child]? = some (word ++ [symbol])
  parent : ∀ {word : List UInt8} {symbol : UInt8}, word ++ [symbol] ∈ words → word ∈ words

variable {trie : Trie} {words : List (List UInt8)}

theorem spells_empty : Spells empty [[]] where
  length_eq := rfl
  nodup := List.nodup_singleton _
  root := rfl
  ascending := by
    intro id
    cases id with
    | zero => exact ascending_nil
    | succ id => exact ascending_nil
  child_iff := by
    intro id word placed symbol child
    have index := (List.getElem?_eq_some_iff.mp placed).1
    rw [List.length_singleton, Nat.lt_one_iff] at index
    subst index
    constructor
    · intro childMem
      cases childMem
    · intro childPlaced
      have same := List.mem_singleton.mp (List.mem_of_getElem? childPlaced)
      simp at same
  parent := by simp

namespace Spells

theorem lt_size (spells : Spells trie words) {id : Nat} {word : List UInt8}
    (placed : words[id]? = some word) : id < trie.size := by
  rw [← spells.length_eq]
  exact (List.getElem?_eq_some_iff.mp placed).1

theorem exists_word (spells : Spells trie words) {id : Nat} (idLt : id < trie.size) :
    ∃ word, words[id]? = some word :=
  ⟨_, List.getElem?_eq_getElem (spells.length_eq ▸ idLt)⟩

theorem nil_mem (spells : Spells trie words) : [] ∈ words :=
  List.mem_of_getElem? spells.root

theorem prefixClosed (spells : Spells trie words) : PrefixClosed words := by
  intro word wordMem before isPrefix
  induction word using List.reverseRecOn with
  | nil =>
      rw [List.prefix_nil.mp isPrefix]
      exact wordMem
  | append_singleton word symbol ih =>
      rcases List.prefix_concat_iff.mp isPrefix with rfl | shorter
      · exact wordMem
      · exact ih (spells.parent wordMem) shorter

theorem child?_eq_some_iff (spells : Spells trie words) {id child : Nat} {word : List UInt8}
    (placed : words[id]? = some word) {symbol : UInt8} :
    trie.child? id symbol = some child ↔ words[child]? = some (word ++ [symbol]) := by
  rw [child?, (spells.ascending id).lookup_eq_some_iff, spells.child_iff placed]

theorem child?_eq_none_iff (spells : Spells trie words) {id : Nat} {word : List UInt8}
    (placed : words[id]? = some word) {symbol : UInt8} :
    trie.child? id symbol = none ↔ word ++ [symbol] ∉ words := by
  constructor
  · intro missing wordMem
    rcases List.mem_iff_getElem?.mp wordMem with ⟨child, childPlaced⟩
    rw [(spells.child?_eq_some_iff placed).mpr childPlaced] at missing
    cases missing
  · intro notMem
    cases found : trie.child? id symbol with
    | none => rfl
    | some child =>
        exact absurd (List.mem_of_getElem? ((spells.child?_eq_some_iff placed).mp found)) notMem

theorem eq_root (spells : Spells trie words) {id : Nat} (placed : words[id]? = some []) :
    id = Trie.root :=
  index_eq_of_getElem? spells.nodup placed spells.root

theorem ne_root_of_placed (spells : Spells trie words) {id : Nat} {word : List UInt8}
    {symbol : UInt8} (placed : words[id]? = some (word ++ [symbol])) : id ≠ Trie.root := by
  rintro rfl
  rw [spells.root] at placed
  simp at placed

theorem exists_parent (spells : Spells trie words) {id : Nat} {before : List UInt8}
    {symbol : UInt8} (placed : words[id]? = some (before ++ [symbol])) :
    ∃ parent, words[parent]? = some before ∧ (symbol, id) ∈ (trie.node parent).children := by
  obtain ⟨parent, parentPlaced⟩ :=
    List.mem_iff_getElem?.mp (spells.parent (List.mem_of_getElem? placed))
  exact ⟨parent, parentPlaced, (spells.child_iff parentPlaced symbol id).mpr placed⟩

/-- Every node but the root stands for a word with a byte behind the word of another node. -/
theorem exists_placed_parent (spells : Spells trie words) {id : Nat} (idLt : id < trie.size)
    (notRoot : id ≠ Trie.root) :
    ∃ (parent : Nat) (before : List UInt8) (symbol : UInt8), words[parent]? = some before ∧
      words[id]? = some (before ++ [symbol]) := by
  obtain ⟨word, placed⟩ := spells.exists_word idLt
  cases word using List.reverseRecOn with
  | nil => exact absurd (spells.eq_root placed) notRoot
  | append_singleton before symbol =>
      obtain ⟨parent, parentPlaced, -⟩ := spells.exists_parent placed
      exact ⟨parent, before, symbol, parentPlaced, placed⟩

theorem nodup_children (spells : Spells trie words) {id : Nat} {word : List UInt8}
    (placed : words[id]? = some word) : ((trie.node id).children.map Prod.snd).Nodup := by
  rw [List.Nodup, List.pairwise_map]
  apply List.Pairwise.imp_of_mem _ (spells.ascending id)
  intro first second firstMem secondMem lt eq
  have firstPlaced := (spells.child_iff placed first.1 first.2).mp firstMem
  have secondPlaced := (spells.child_iff placed second.1 second.2).mp secondMem
  rw [eq, secondPlaced, Option.some.injEq, List.append_singleton_inj] at firstPlaced
  rw [firstPlaced.2] at lt
  exact UInt8.lt_irrefl _ lt

end Spells

/-! ## Adding a child -/

theorem size_addChild (trie : Trie) (id : Nat) (symbol : UInt8) :
    (trie.addChild id symbol).size = trie.size + 1 := by
  simp [addChild, size]

theorem node_of_le {id : Nat} (le : trie.size ≤ id) : trie.node id = default := by
  rw [node, Array.getD_eq_getD_getElem?, Array.getElem?_eq_none le]
  rfl

theorem node_addChild_self {id : Nat} (lt : id < trie.size) (symbol : UInt8) :
    (trie.addChild id symbol).node id =
      { trie.node id with
        children := insertSorted symbol trie.size (trie.node id).children } := by
  have inside : id < trie.nodes.size := lt
  have ne : id ≠ trie.nodes.size := Nat.ne_of_lt lt
  simp [node, addChild, Array.getD_eq_getD_getElem?, Array.getElem?_push, ne, inside,
    Array.getElem_modify]

theorem node_addChild_of_ne {id other : Nat} (ne : other ≠ id) (symbol : UInt8) :
    (trie.addChild id symbol).node other = trie.node other := by
  by_cases isNew : other = trie.size
  · rw [node_of_le (Nat.le_of_eq isNew.symm), isNew, node, Array.getD_eq_getD_getElem?]
    have inside : (trie.addChild id symbol).nodes[trie.size]? = some default := by
      rw [addChild, Array.getElem?_push, Array.size_modify]
      exact if_pos rfl
    rw [inside, Option.getD_some]
  · have notNew : other ≠ trie.nodes.size := isNew
    simp [node, addChild, Array.getD_eq_getD_getElem?, Array.getElem?_push, notNew,
      Array.getElem?_modify, ne.symm]

/-- Adding a child adds one pair to the children of its parent. -/
theorem mem_children_addChild_iff {id : Nat} (lt : id < trie.size) {symbol : UInt8} {other : Nat}
    {pair : UInt8 × Nat} :
    pair ∈ ((trie.addChild id symbol).node other).children ↔
      pair ∈ (trie.node other).children ∨ other = id ∧ pair = (symbol, trie.size) := by
  by_cases isParent : other = id
  · rw [isParent, node_addChild_self lt, mem_insertSorted, or_comm]
    simp
  · rw [node_addChild_of_ne isParent]
    simp [isParent]

theorem output_addChild {id : Nat} (lt : id < trie.size) (symbol : UInt8) (other : Nat) :
    ((trie.addChild id symbol).node other).output = (trie.node other).output := by
  by_cases isParent : other = id
  · rw [isParent, node_addChild_self lt]
  · rw [node_addChild_of_ne isParent]

theorem Spells.child_lt (spells : Spells trie words) {id child : Nat} {symbol : UInt8}
    (childMem : (symbol, child) ∈ (trie.node id).children) : child < trie.size := by
  by_cases idLt : id < trie.size
  · obtain ⟨word, placed⟩ := spells.exists_word idLt
    exact spells.lt_size ((spells.child_iff placed symbol child).mp childMem)
  · rw [node_of_le (Nat.le_of_not_lt idLt)] at childMem
    cases childMem

theorem getElem?_concat_eq_some_iff {words : List (List UInt8)} {new word : List UInt8}
    {id : Nat} :
    (words ++ [new])[id]? = some word ↔
      words[id]? = some word ∨ id = words.length ∧ word = new := by
  by_cases old : id < words.length
  · rw [List.getElem?_append_left old]
    simp [Nat.ne_of_lt old]
  · rw [List.getElem?_append_right (Nat.le_of_not_lt old),
      List.getElem?_eq_none (Nat.le_of_not_lt old), List.getElem?_singleton]
    simp only [Option.ite_none_right_eq_some, Option.some.injEq, reduceCtorEq, false_or]
    constructor
    · rintro ⟨atEnd, rfl⟩
      exact ⟨by omega, rfl⟩
    · rintro ⟨rfl, rfl⟩
      exact ⟨Nat.sub_self _, rfl⟩

/-- A missing child stands for a new word. -/
theorem Spells.addChild (spells : Spells trie words) {id : Nat} {word : List UInt8}
    (placed : words[id]? = some word) {symbol : UInt8} (fresh : word ++ [symbol] ∉ words) :
    Spells (trie.addChild id symbol) (words ++ [word ++ [symbol]]) := by
  have idLt := spells.lt_size placed
  constructor
  case length_eq =>
      rw [List.length_append, spells.length_eq, size_addChild, List.length_singleton]
  case nodup =>
      rw [List.nodup_append]
      refine ⟨spells.nodup, List.nodup_singleton _, ?_⟩
      intro old oldMem new newMem eq
      rw [List.mem_singleton.mp newMem] at eq
      exact fresh (eq ▸ oldMem)
  case root => exact getElem?_concat_eq_some_iff.mpr (.inl spells.root)
  case ascending =>
      intro other
      by_cases isParent : other = id
      · rw [isParent, node_addChild_self idLt]
        apply ascending_insertSorted _ (spells.ascending id)
        intro symbolMem
        rcases List.mem_map.mp symbolMem with ⟨⟨_, child⟩, childMem, rfl⟩
        exact fresh (List.mem_of_getElem? ((spells.child_iff placed _ child).mp childMem))
      · rw [node_addChild_of_ne isParent]
        exact spells.ascending other
  case child_iff =>
      intro other otherWord otherPlaced otherSymbol child
      rw [mem_children_addChild_iff idLt, getElem?_concat_eq_some_iff, spells.length_eq]
      rcases getElem?_concat_eq_some_iff.mp otherPlaced with old | ⟨atEnd, rfl⟩
      · rw [spells.child_iff old]
        apply or_congr_right
        constructor
        · rintro ⟨rfl, pairEq⟩
          rw [(Prod.mk.inj pairEq).1, Option.some.inj (old.symm.trans placed)]
          exact ⟨(Prod.mk.inj pairEq).2, rfl⟩
        · rintro ⟨rfl, wordEq⟩
          rcases List.append_singleton_inj.mp wordEq with ⟨rfl, rfl⟩
          exact ⟨index_eq_of_getElem? spells.nodup old placed, rfl⟩
      · rw [spells.length_eq] at atEnd
        have ne : other ≠ id := Nat.ne_of_gt (atEnd ▸ idLt)
        rw [node_of_le (Nat.le_of_eq atEnd.symm)]
        -- The new node has no children, and no word continues its word.
        apply iff_of_false
        · rintro (childMem | ⟨same, _⟩)
          · cases childMem
          · exact ne same
        · rintro (oldChild | ⟨-, eq⟩)
          · exact fresh (spells.parent (List.mem_of_getElem? oldChild))
          · simp at eq
  case parent =>
      intro before last wordMem
      rw [List.mem_append, List.mem_singleton] at wordMem ⊢
      rcases wordMem with old | new
      · exact .inl (spells.parent old)
      · rw [(List.append_singleton_inj.mp new).1]
        exact .inl (List.mem_of_getElem? placed)

/-! ## Extending below a node -/

/-- The continuations of a word by a symbol and further bytes are those of its child, once
both are there. -/
theorem mem_or_continuation_iff {words : List (List UInt8)} {word : List UInt8}
    {symbol : UInt8} (wordMem : word ∈ words) {rest other : List UInt8} :
    (other ∈ words ∨ ∃ before, before <+: rest ∧ other = word ++ [symbol] ++ before) ↔
      other ∈ words ∨ ∃ before, before <+: symbol :: rest ∧ other = word ++ before := by
  constructor
  · rintro (old | ⟨before, isPrefix, rfl⟩)
    · exact .inl old
    · refine .inr ⟨symbol :: before, List.cons_prefix_cons.mpr ⟨rfl, isPrefix⟩, ?_⟩
      rw [List.append_assoc, List.singleton_append]
  · rintro (old | ⟨before, isPrefix, rfl⟩)
    · exact .inl old
    · cases before with
      | nil =>
          rw [List.append_nil]
          exact .inl wordMem
      | cons head before =>
          rcases List.cons_prefix_cons.mp isPrefix with ⟨rfl, restPrefix⟩
          refine .inr ⟨before, restPrefix, ?_⟩
          rw [List.append_assoc, List.singleton_append]

/-- Extending below a node adds its word's continuations by the prefixes of some bytes,
and marks no node. -/
theorem Spells.extend (spells : Spells trie words) {id : Nat} {word : List UInt8}
    (placed : words[id]? = some word) (rest : List UInt8) :
    ∃ extended, Spells (trie.extend id rest).1 extended ∧ words <+: extended ∧
      extended[(trie.extend id rest).2]? = some (word ++ rest) ∧
      (∀ other, other ∈ extended ↔
        other ∈ words ∨ ∃ before, before <+: rest ∧ other = word ++ before) ∧
      ∀ other, ((trie.extend id rest).1.node other).output = (trie.node other).output := by
  induction rest generalizing trie id words word with
  | nil =>
      refine ⟨words, spells, List.prefix_refl _, ?_, ?_, fun _ => rfl⟩
      · rw [List.append_nil]
        exact placed
      · intro other
        constructor
        · exact Or.inl
        · rintro (old | ⟨before, isPrefix, rfl⟩)
          · exact old
          · rw [List.prefix_nil.mp isPrefix, List.append_nil]
            exact List.mem_of_getElem? placed
  | cons symbol rest ih =>
      rw [Trie.extend]
      cases found : trie.child? id symbol with
      | some child =>
          have childPlaced := (spells.child?_eq_some_iff placed).mp found
          obtain ⟨extended, extendedSpells, isPrefix, endPlaced, mem_iff, outputEq⟩ :=
            ih spells childPlaced
          refine ⟨extended, extendedSpells, isPrefix, ?_, ?_, outputEq⟩
          · rw [endPlaced, List.append_assoc, List.singleton_append]
          · intro other
            rw [mem_iff]
            exact mem_or_continuation_iff (List.mem_of_getElem? placed)
      | none =>
          have fresh := (spells.child?_eq_none_iff placed).mp found
          have childPlaced : (words ++ [word ++ [symbol]])[trie.size]? =
              some (word ++ [symbol]) :=
            getElem?_concat_eq_some_iff.mpr (.inr ⟨spells.length_eq.symm, rfl⟩)
          obtain ⟨extended, extendedSpells, isPrefix, endPlaced, mem_iff, outputEq⟩ :=
            ih (spells.addChild placed fresh) childPlaced
          refine ⟨extended, extendedSpells, (List.prefix_append _ _).trans isPrefix, ?_, ?_, ?_⟩
          · rw [endPlaced, List.append_assoc, List.singleton_append]
          · intro other
            rw [mem_iff,
              mem_or_continuation_iff (List.mem_append_left _ (List.mem_of_getElem? placed))]
            rw [List.mem_append, List.mem_singleton]
            constructor
            · rintro ((old | rfl) | continuation)
              · exact .inl old
              · exact .inr ⟨[symbol], List.prefix_append [symbol] rest, rfl⟩
              · exact .inr continuation
            · rintro (old | continuation)
              · exact .inl (.inl old)
              · exact .inr continuation
          · intro other
            rw [outputEq, output_addChild (spells.lt_size placed)]

/-! ## Marking a node -/

theorem size_mark (trie : Trie) (id : Nat) (output : UInt8) :
    (trie.mark id output).size = trie.size := by
  simp [mark, size]

theorem node_mark_of_ne {id other : Nat} (ne : other ≠ id) (output : UInt8) :
    (trie.mark id output).node other = trie.node other := by
  simp [mark, node, Array.getD_eq_getD_getElem?, Array.getElem?_modify, ne.symm]

theorem node_mark_self {id : Nat} (lt : id < trie.size) (output : UInt8) :
    (trie.mark id output).node id =
      if (trie.node id).output = 0 then { trie.node id with output } else trie.node id := by
  have inside : id < trie.nodes.size := lt
  simp [mark, node, Array.getD_eq_getD_getElem?, inside, Array.getElem_modify]

theorem children_mark {id : Nat} (lt : id < trie.size) (output : UInt8) (other : Nat) :
    ((trie.mark id output).node other).children = (trie.node other).children := by
  by_cases same : other = id
  · rw [same, node_mark_self lt]
    split <;> rfl
  · rw [node_mark_of_ne same]

/-- Marking gives an id to a node that has none. -/
theorem output_mark {id : Nat} (lt : id < trie.size) (output : UInt8) (other : Nat) :
    ((trie.mark id output).node other).output =
      if other = id ∧ (trie.node other).output = 0 then output else (trie.node other).output := by
  by_cases same : other = id
  · rw [same, node_mark_self lt]
    by_cases unmarked : (trie.node id).output = 0
    · simp [unmarked]
    · simp [unmarked]
  · rw [node_mark_of_ne same]
    simp [same]

theorem Spells.mark (spells : Spells trie words) {id : Nat} (lt : id < trie.size)
    (output : UInt8) : Spells (trie.mark id output) words where
  length_eq := spells.length_eq.trans (size_mark trie id output).symm
  nodup := spells.nodup
  root := spells.root
  ascending other := by
    rw [children_mark lt]
    exact spells.ascending other
  child_iff placed symbol child := by
    rw [children_mark lt]
    exact spells.child_iff placed symbol child
  parent := spells.parent

/-! ## The trie of a literal set -/

/-- A word in a longer list of distinct words is where it was, or is new. -/
theorem getElem?_or_notMem_of_prefix {words extended : List (List UInt8)}
    (isPrefix : words <+: extended) (nodup : extended.Nodup) {id : Nat} {word : List UInt8}
    (placed : extended[id]? = some word) :
    words[id]? = some word ∨ words.length ≤ id ∧ word ∉ words := by
  by_cases old : id < words.length
  · rw [List.prefix_iff_getElem?.mp isPrefix id old] at placed
    exact .inl (List.getElem?_eq_some_iff.mpr ⟨old, Option.some.inj placed⟩)
  · refine .inr ⟨Nat.le_of_not_lt old, ?_⟩
    intro wordMem
    rcases List.mem_iff_getElem.mp wordMem with ⟨place, placeLt, rfl⟩
    have same := index_eq_of_getElem? nodup placed
      (List.prefix_iff_getElem?.mp isPrefix place placeLt)
    exact old (same ▸ placeLt)

/-- The nodes stand for the prefixes of the literals, and carry the ids of those that are
literals themselves. -/
structure Holds (trie : Trie) (words literals : List (List UInt8)) : Prop where
  spells : Spells trie words
  mem_iff : ∀ word, word ∈ words ↔ word = [] ∨ ∃ literal ∈ literals, word <+: literal
  output_eq : ∀ {id : Nat} {word : List UInt8}, words[id]? = some word →
    (trie.node id).output = literalId literals word

theorem Holds.mem_of_mem {literals : List (List UInt8)} (holds : Holds trie words literals) :
    ∀ literal ∈ literals, literal ∈ words := by
  intro literal literalMem
  rw [holds.mem_iff]
  exact .inr ⟨literal, literalMem, List.prefix_refl _⟩

theorem holds_empty : Holds empty [[]] [] where
  spells := spells_empty
  mem_iff := by simp
  output_eq := by
    intro id word placed
    rw [literalId, if_neg List.not_mem_nil]
    cases id with
    | zero => rfl
    | succ id => rfl

/-- Inserting a literal that comes behind others gives it its id. -/
theorem Holds.insert {literals : List (List UInt8)} (holds : Holds trie words literals)
    (literal : List UInt8) (numberable : Numberable (literals ++ [literal])) :
    ∃ extended,
      Holds (trie.insert literal (literals.length + 1).toUInt8) extended
        (literals ++ [literal]) := by
  obtain ⟨extended, spells, isPrefix, endPlaced, mem_iff, outputEq⟩ :=
    holds.spells.extend holds.spells.root literal
  rw [List.nil_append] at endPlaced
  have endLt := spells.lt_size endPlaced
  refine ⟨extended, spells.mark endLt _, ?_, ?_⟩
  · intro word
    rw [mem_iff, holds.mem_iff]
    simp only [List.nil_append, exists_eq_right', List.mem_append, List.mem_singleton]
    constructor
    · rintro ((rfl | ⟨other, otherMem, otherPrefix⟩) | wordPrefix)
      · exact .inl rfl
      · exact .inr ⟨other, .inl otherMem, otherPrefix⟩
      · exact .inr ⟨literal, .inr rfl, wordPrefix⟩
    · rintro (rfl | ⟨other, otherMem | rfl, otherPrefix⟩)
      · exact .inl (.inl rfl)
      · exact .inl (.inr ⟨other, otherMem, otherPrefix⟩)
      · exact .inr otherPrefix
  · intro id word placed
    have unmarked : ((trie.extend root literal).1.node id).output = literalId literals word := by
      rw [outputEq]
      rcases getElem?_or_notMem_of_prefix isPrefix spells.nodup placed with old | ⟨le, notOld⟩
      · exact holds.output_eq old
      · have notLiteral : word ∉ literals := fun wordMem =>
          notOld (holds.mem_of_mem word wordMem)
        rw [node_of_le (holds.spells.length_eq ▸ le), literalId, if_neg notLiteral]
        rfl
    have atEnd_iff : id = (trie.extend root literal).2 ↔ word = literal := by
      constructor
      · rintro rfl
        exact Option.some.inj (placed.symm.trans endPlaced)
      · rintro rfl
        exact index_eq_of_getElem? spells.nodup placed endPlaced
    have zero_iff := @literalId_eq_zero_iff literals numberable.of_append word
    rw [Trie.insert, output_mark endLt, unmarked, literalId_append_singleton]
    by_cases wordMem : word ∈ literals
    · simp [wordMem, zero_iff]
    · simp [wordMem, zero_iff.mpr wordMem, atEnd_iff]

/-- The trie of a literal set holds its literals. -/
theorem exists_holds_ofSet (set : LiteralSet) :
    ∃ words, Holds (ofSet set) words set.toList := by
  have numberable := set.numberable
  rw [ofSet]
  generalize set.toList = literals at numberable
  induction literals using List.reverseRecOn with
  | nil => exact ⟨[[]], holds_empty⟩
  | append_singleton literals literal ih =>
      obtain ⟨words, holds⟩ := ih numberable.of_append
      rw [List.zipIdx_append, List.foldl_append]
      simp only [List.zipIdx_cons, List.zipIdx_nil, List.foldl_cons, List.foldl_nil,
        Nat.zero_add]
      exact holds.insert literal numberable

end ByteSignature.Trie
