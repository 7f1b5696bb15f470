import ByteSignature.Proofs.Graphviz.Line

/-!
# Pictures

A picture has numbered nodes, some of them accepting, and each with its edges in order.  Unless
it is empty, it has a start.  Its drawing says all that line by line, but a node that does not
accept and has no edges has no line of its own.  As long as every such node is the first or the
target of an edge, the drawing still tells how many nodes there are, and so it tells the picture.
-/

namespace ByteSignature

/-- Of the numbered items, only the one with the number is picked. -/
theorem flatMap_zipIdx_ite {α β : Type} (items : List α) (pick : α → List β) (first id : Nat) :
    ((items.zipIdx first).flatMap fun numbered =>
        if numbered.2 = id then pick numbered.1 else []) =
      if first ≤ id then (items[id - first]?).elim [] pick else [] := by
  induction items generalizing first with
  | nil => simp
  | cons item items ih =>
      rw [List.zipIdx_cons, List.flatMap_cons, ih]
      rcases Nat.lt_trichotomy first id with before | rfl | behind
      · obtain ⟨index, rfl⟩ := Nat.exists_eq_add_of_lt before
        rw [if_neg (by omega), if_pos (by omega), if_pos (by omega), List.nil_append,
          show first + index + 1 - (first + 1) = index by omega,
          show first + index + 1 - first = index + 1 by omega, List.getElem?_cons_succ]
      · rw [if_pos rfl, if_neg (by omega), if_pos (Nat.le_refl _), Nat.sub_self, List.append_nil]
        rfl
      · rw [if_neg (by omega), if_neg (by omega), if_neg (by omega), List.nil_append]

namespace Graphviz

/-- A node accepts or not, and has edges with the numbers they lead to. -/
structure Node where
  accepting : Bool
  edges : List (Nat × Label)
  deriving DecidableEq, Repr

/-- What is said of a node. -/
def Node.items (id : Nat) (node : Node) : List Item :=
  (if node.accepting then [.accepting id] else []) ++
    node.edges.map fun edge => .edge id edge.1 edge.2

/-- What is said of some nodes in order. -/
def nodeItems (nodes : List Node) : List Item :=
  nodes.zipIdx.flatMap fun numbered => numbered.1.items numbered.2

/-- Nodes by number, and the number to start from. -/
structure Picture where
  start? : Option Nat
  nodes : List Node
  deriving DecidableEq, Repr

/-- What is said of a picture. -/
def Picture.items (picture : Picture) : List Item :=
  picture.start?.toList.map Item.start ++ nodeItems picture.nodes

/-- The drawing that says something line by line. -/
def draw (name : String) (items : List Item) : String :=
  header name ++ String.join (items.map fun item => item.text ++ "\n") ++ footer

theorem stateLines_eq (id : Nat) (node : Node) :
    stateLines id node.accepting (node.edges.map fun edge => (edge.1, edgeLabel edge.2)) =
      (node.items id).map fun item => item.text ++ "\n" := by
  have edges : (node.edges.map fun edge => edgeLine id edge.1 (edgeLabel edge.2)) =
      node.edges.map fun edge => (Item.edge id edge.1 edge.2).text ++ "\n" :=
    List.map_congr_left fun edge _ => Item.edgeLine_eq id edge.1 edge.2
  rw [stateLines, Node.items, List.map_append, List.map_map, List.map_map]
  refine congrArg₂ (· ++ ·) ?_ edges
  split
  · rw [List.map_singleton, Item.acceptingLine_eq]
  · rfl

/-- A picture is drawn state by state. -/
theorem draw_items (name : String) (picture : Picture) :
    draw name picture.items =
      header name ++ String.join (picture.start?.toList.map startLine) ++
        String.join (picture.nodes.zipIdx.flatMap fun numbered =>
          stateLines numbered.2 numbered.1.accepting
            (numbered.1.edges.map fun edge => (edge.1, edgeLabel edge.2))) ++ footer := by
  have starts : (picture.start?.toList.map Item.start).map (fun item => item.text ++ "\n") =
      picture.start?.toList.map startLine := by
    rw [List.map_map]
    exact List.map_congr_left fun id _ => (Item.startLine_eq id).symm
  simp only [draw, Picture.items, List.map_append, starts, String.join_append, nodeItems,
    List.map_flatMap, stateLines_eq, String.append_assoc]

/-! ## Lines of drawings -/

theorem toList_draw (name : String) (items : List Item) :
    (draw name items).toList = (header name).toList ++
      ((items.flatMap fun item => item.text.toList ++ ['\n']) ++ footer.toList) := by
  simp only [draw, String.toList_append, String.toList_join, List.flatMap_map, List.append_assoc]
  rfl

/-- A drawing tells what it says. -/
theorem draw_injective (name : String) : Function.Injective (draw name) := by
  intro items items2 eq
  have characters := congrArg String.toList eq
  rw [toList_draw, toList_draw, List.append_cancel_left_eq, List.append_cancel_right_eq]
    at characters
  have texts := congrArg Text.lines characters
  rw [← List.append_nil (items.flatMap _), ← List.append_nil (items2.flatMap _),
    Item.lines_flatMap_text_append, Item.lines_flatMap_text_append,
    List.append_cancel_right_eq] at texts
  apply List.map_injective_iff.mpr _ texts
  intro item item2 same
  exact Item.text_injective (String.toList_inj.mp same)

/-- The lines of a text that have a label, in order. -/
def labelledLines (text : String) : List (List Char) :=
  (Text.lines text.toList).filter isLabelled

theorem filter_isLabelled_lines {text : List Char} (notQuoted : '"' ∉ text) :
    (Text.lines text).filter isLabelled = [] := by
  rw [List.filter_eq_nil_iff]
  intro line lineMem
  rw [isLabelled_eq_false fun quoteMem => notQuoted (Text.mem_of_mem_lines lineMem quoteMem)]
  exact Bool.false_ne_true

/-- The labelled lines of a drawing say which edges there are. -/
theorem labelledLines_draw {name : String} (notQuoted : '"' ∉ (header name).toList)
    (items : List Item) :
    labelledLines (draw name items) =
      (items.filter Item.isEdge).map fun item => item.text.toList := by
  have cut (rest : List Char) : Text.lines ((header name).toList ++ rest) =
      Text.lines (header name).toList ++ Text.lines rest := by
    have ends : (header name).toList = ("digraph " ++ name ++
        " \x7b\n  rankdir=LR;\n  node [shape=circle];\n" ++ "  start [shape=point];").toList ++
          Text.LineEnd.feed.text := by
      simp [header, Text.LineEnd.text]
    rw [ends, Text.lines_append_lineEnd_append]
  have edges : (items.map fun item => item.text.toList).filter isLabelled =
      (items.filter Item.isEdge).map fun item => item.text.toList := by
    rw [List.filter_map]
    congr 2
    funext item
    exact isLabelled_text item
  rw [labelledLines, toList_draw, cut, Item.lines_flatMap_text_append, List.filter_append,
    List.filter_append, filter_isLabelled_lines notQuoted,
    filter_isLabelled_lines (by decide), List.nil_append, List.append_nil, edges]

/-- The edges of a picture are said node by node. -/
theorem Picture.filter_isEdge_items (picture : Picture) :
    picture.items.filter Item.isEdge =
      picture.nodes.zipIdx.flatMap fun numbered =>
        numbered.1.edges.map fun edge => .edge numbered.2 edge.1 edge.2 := by
  have noStart : (picture.start?.toList.map Item.start).filter Item.isEdge = [] := by
    cases picture.start? <;> rfl
  have nodeEdges (id : Nat) (node : Node) : (node.items id).filter Item.isEdge =
      node.edges.map fun edge => .edge id edge.1 edge.2 := by
    have marks : (if node.accepting then [Item.accepting id] else []).filter Item.isEdge = [] := by
      split <;> rfl
    rw [Node.items, List.filter_append, marks, List.nil_append, List.filter_eq_self]
    intro item itemMem
    obtain ⟨edge, -, rfl⟩ := List.mem_map.mp itemMem
    rfl
  simp only [items, List.filter_append, noStart, List.nil_append, nodeItems, List.filter_flatMap,
    nodeEdges]

/-! ## Reading pictures -/

/-- The number to start from that is said. -/
def Item.startOf? : Item → Option Nat
  | .start id => some id
  | _ => none

/-- The edge from a given node that is said. -/
def Item.edgeFrom? (id : Nat) : Item → Option (Nat × Label)
  | .edge source target label => if source = id then some (target, label) else none
  | _ => none

theorem Node.filterMap_startOf?_items (id : Nat) (node : Node) :
    (node.items id).filterMap Item.startOf? = [] := by
  rw [List.filterMap_eq_nil_iff]
  intro item itemMem
  rcases List.mem_append.mp itemMem with marked | edgeMem
  · split at marked
    · rw [List.mem_singleton.mp marked]
      rfl
    · cases marked
  · obtain ⟨edge, -, rfl⟩ := List.mem_map.mp edgeMem
    rfl

theorem Node.filterMap_edgeFrom?_items (source id : Nat) (node : Node) :
    (node.items source).filterMap (Item.edgeFrom? id) =
      if source = id then node.edges else [] := by
  have marks : (if node.accepting then [Item.accepting source] else []).filterMap
      (Item.edgeFrom? id) = [] := by
    split <;> rfl
  rw [Node.items, List.filterMap_append, marks, List.nil_append, List.filterMap_map]
  split
  · rename_i same
    simp [Item.edgeFrom?, same]
  · rename_i other
    simp [Item.edgeFrom?, other]

theorem Node.accepting_mem_items_iff {source id : Nat} {node : Node} :
    Item.accepting id ∈ node.items source ↔ source = id ∧ node.accepting = true := by
  cases accepting : node.accepting <;> simp [Node.items, accepting, eq_comm]

/-- A node of which nothing is said. -/
def Node.silent : Node :=
  ⟨false, []⟩

/-- A node by number.  Nothing is said of a node that is not there. -/
def Picture.node (picture : Picture) (id : Nat) : Node :=
  picture.nodes[id]?.getD .silent

/-- What is said of a node by number. -/
def nodeOf (items : List Item) (id : Nat) : Node :=
  ⟨decide (.accepting id ∈ items), items.filterMap (Item.edgeFrom? id)⟩

theorem nodeOf_nodeItems (picture : Picture) (id : Nat) :
    nodeOf (nodeItems picture.nodes) id = picture.node id := by
  have edges : (nodeItems picture.nodes).filterMap (Item.edgeFrom? id) =
      (picture.nodes[id]?).elim [] Node.edges := by
    simp only [nodeItems, List.filterMap_flatMap, Node.filterMap_edgeFrom?_items]
    exact flatMap_zipIdx_ite picture.nodes Node.edges 0 id
  have accepting_iff : Item.accepting id ∈ nodeItems picture.nodes ↔
      ∃ node, picture.nodes[id]? = some node ∧ node.accepting = true := by
    simp only [nodeItems, List.mem_flatMap, Prod.exists, List.mk_mem_zipIdx_iff_getElem?,
      Node.accepting_mem_items_iff]
    constructor
    · rintro ⟨node, source, placed, rfl, accepting⟩
      exact ⟨node, placed, accepting⟩
    · rintro ⟨node, placed, accepting⟩
      exact ⟨node, id, placed, rfl, accepting⟩
  rw [nodeOf, edges, Picture.node]
  cases placed : picture.nodes[id]? with
  | none =>
      rw [placed] at accepting_iff
      simp [accepting_iff, Node.silent]
  | some node =>
      rw [placed] at accepting_iff
      simp [accepting_iff]

/-! ## Pictures that are told -/

/-- Every node but the first accepts or is the target of an edge, all targets are nodes, and
there is a start when there are nodes. -/
structure Picture.Told (picture : Picture) : Prop where
  start_iff : picture.start? = none ↔ picture.nodes = []
  mentioned : ∀ {id node}, picture.nodes[id]? = some node → 0 < id →
    node.accepting = true ∨ ∃ other ∈ picture.nodes, id ∈ other.edges.map Prod.fst
  target_lt : ∀ node ∈ picture.nodes, ∀ target ∈ node.edges.map Prod.fst,
    target < picture.nodes.length

namespace Picture

variable {picture picture2 : Picture}

theorem filterMap_startOf?_items (picture : Picture) :
    picture.items.filterMap Item.startOf? = picture.start?.toList := by
  have nothing : (nodeItems picture.nodes).filterMap Item.startOf? = [] := by
    simp only [nodeItems, List.filterMap_flatMap, Node.filterMap_startOf?_items]
    simp
  rw [items, List.filterMap_append, nothing, List.append_nil]
  cases picture.start? <;> rfl

theorem start?_eq_of_items_eq (items_eq : picture.items = picture2.items) :
    picture.start? = picture2.start? := by
  have starts := congrArg (List.filterMap Item.startOf?) items_eq
  rw [filterMap_startOf?_items, filterMap_startOf?_items] at starts
  simpa using congrArg List.head? starts

theorem node_of_getElem? {id : Nat} {node : Node} (placed : picture.nodes[id]? = some node) :
    picture.node id = node := by
  rw [Picture.node, placed, Option.getD_some]

theorem node_of_le {id : Nat} (le : picture.nodes.length ≤ id) : picture.node id = .silent := by
  rw [Picture.node, List.getElem?_eq_none le, Option.getD_none]

/-- A told picture has no nodes beyond those of another that is drawn alike. -/
theorem Told.length_le (told : picture.Told) (told2 : picture2.Told)
    (nonempty2 : picture2.nodes ≠ []) (same : ∀ id, picture.node id = picture2.node id) :
    picture.nodes.length ≤ picture2.nodes.length := by
  by_contra longer
  -- The first node beyond those of the other picture accepts or is a target.  Neither is said of
  -- it there, where it is no node and all targets are nodes.
  have placed := List.getElem?_eq_getElem (Nat.lt_of_not_le longer)
  rcases told.mentioned placed (List.length_pos_iff.mpr nonempty2) with
    accepting | ⟨other, otherMem, targetMem⟩
  · rw [← node_of_getElem? placed, same, node_of_le (Nat.le_refl _)] at accepting
    cases accepting
  · obtain ⟨source, otherPlaced⟩ := List.mem_iff_getElem?.mp otherMem
    rw [← node_of_getElem? otherPlaced, same] at targetMem
    by_cases sourceLt : source < picture2.nodes.length
    · have placed2 := List.getElem?_eq_getElem sourceLt
      rw [node_of_getElem? placed2] at targetMem
      exact Nat.lt_irrefl _ (told2.target_lt _ (List.mem_of_getElem? placed2) _ targetMem)
    · rw [node_of_le (Nat.le_of_not_lt sourceLt)] at targetMem
      cases targetMem

/-- Told pictures that are drawn alike are the same. -/
theorem Told.eq_of_items_eq (told : picture.Told) (told2 : picture2.Told)
    (items_eq : picture.items = picture2.items) : picture = picture2 := by
  have start?_eq := start?_eq_of_items_eq items_eq
  have nodeItems_eq : nodeItems picture.nodes = nodeItems picture2.nodes := by
    rw [items, items, start?_eq] at items_eq
    exact List.append_cancel_left items_eq
  have same (id : Nat) : picture.node id = picture2.node id := by
    rw [← nodeOf_nodeItems, ← nodeOf_nodeItems, nodeItems_eq]
  have nodes_eq : picture.nodes = picture2.nodes := by
    by_cases empty : picture.nodes = []
    · rw [empty, eq_comm, ← told2.start_iff, ← start?_eq, told.start_iff, empty]
    · have nonempty2 : picture2.nodes ≠ [] := by
        rwa [ne_eq, ← told2.start_iff, ← start?_eq, told.start_iff]
      have length_eq := Nat.le_antisymm (told.length_le told2 nonempty2 same)
        (told2.length_le told empty fun id => (same id).symm)
      apply List.ext_getElem length_eq
      intro id idLt idLt2
      rw [← node_of_getElem? (List.getElem?_eq_getElem idLt), same,
        node_of_getElem? (List.getElem?_eq_getElem idLt2)]
  cases picture
  cases picture2
  cases start?_eq
  cases nodes_eq
  rfl

end Picture

end Graphviz

end ByteSignature
