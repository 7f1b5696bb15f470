import ByteSignature.Proofs.Compile.Meaning
import ByteSignature.Proofs.Graphviz.Picture

/-!
# Drawings of automata

The drawing of a deterministic automaton is a picture of its description, in which every place
but the first is the target of an edge.  So it tells the description, and its labelled lines are
the entries of the table, since both number states by place and follow edges by ascending byte.
In a finished automaton every state but the start and the accepting one is the target of an edge,
and so its drawing tells all of it.
-/

namespace ByteSignature.Graphviz

/-! ## Deterministic automata -/

/-- The node for a state of a description. -/
def shapeNode (state : Dfa.ShapeState) : Node where
  accepting := state.accepting
  edges := state.edges.map fun edge => (edge.2, .symbol edge.1)

/-- The picture of a description, which starts at the first place if there is any. -/
def shapePicture (shape : List Dfa.ShapeState) : Picture where
  start? := if shape.isEmpty then none else some 0
  nodes := shape.map shapeNode

theorem shapeNode_injective : Function.Injective shapeNode := by
  rintro ⟨accepting, edges⟩ ⟨accepting2, edges2⟩ eq
  obtain ⟨accepting_eq, targets_eq⟩ := Node.mk.inj eq
  have edges_eq : edges = edges2 := by
    apply List.map_injective_iff.mpr _ targets_eq
    rintro ⟨symbol, target⟩ ⟨symbol2, target2⟩ same
    simp only [Prod.mk.injEq, Label.symbol.injEq] at same
    rw [same.1, same.2]
  rw [edges_eq, show accepting = accepting2 from accepting_eq]

theorem ofDfa_eq (dfa : Dfa) : ofDfa dfa = draw "dfa" (shapePicture dfa.shape).items := by
  have start : (if dfa.shape.isEmpty then "" else startLine 0) =
      String.join ((shapePicture dfa.shape).start?.toList.map startLine) := by
    rw [shapePicture]
    split <;> rfl
  have states : (dfa.shape.zipIdx.flatMap fun state => shapeStateLines state.2 state.1) =
      (shapePicture dfa.shape).nodes.zipIdx.flatMap fun numbered =>
        stateLines numbered.2 numbered.1.accepting
          (numbered.1.edges.map fun edge => (edge.1, edgeLabel edge.2)) := by
    simp only [shapePicture, List.zipIdx_map, List.flatMap_map, Prod.map, id_eq, shapeNode,
      List.map_map]
    rfl
  rw [draw_items, ← start, ← states]
  rfl

theorem told_shapePicture (dfa : Dfa) : (shapePicture dfa.shape).Told where
  start_iff := by
    cases dfa.shape <;> simp [shapePicture]
  mentioned := by
    intro place node placed pos
    right
    rw [shapePicture, List.getElem?_map, Option.map_eq_some_iff] at placed
    obtain ⟨state, described, rfl⟩ := placed
    have placeLt := (List.getElem?_eq_some_iff.mp described).1
    rw [Dfa.length_shape] at placeLt
    have atPlace := List.getElem?_eq_getElem placeLt
    obtain ⟨source, sourceMem, symbol, edge⟩ :=
      Dfa.exists_target?_of_getElem?_order atPlace pos
    obtain ⟨index, atIndex⟩ := List.mem_iff_getElem?.mp sourceMem
    refine ⟨_, List.mem_map_of_mem (List.mem_of_getElem? (Dfa.getElem?_shape atIndex)), ?_⟩
    simp only [shapeNode, List.map_map, List.mem_map]
    exact ⟨(symbol, _), Dfa.mem_sortedEdges_iff.mpr edge, Dfa.getD_places atPlace⟩
  target_lt := by
    intro node nodeMem target targetMem
    obtain ⟨state, stateMem, rfl⟩ := List.mem_map.mp nodeMem
    obtain ⟨id, idMem, rfl⟩ := List.mem_map.mp stateMem
    simp only [shapeNode, List.map_map, List.mem_map] at targetMem
    obtain ⟨edge, -, rfl⟩ := targetMem
    rw [shapePicture, List.length_map, Dfa.length_shape]
    exact Dfa.getD_places_lt (List.ne_nil_of_mem idMem) edge.2

theorem ofDfa_eq_iff {dfa dfa2 : Dfa} : ofDfa dfa = ofDfa dfa2 ↔ dfa.shape = dfa2.shape := by
  constructor
  · intro eq
    rw [ofDfa_eq, ofDfa_eq] at eq
    have pictures := (told_shapePicture dfa).eq_of_items_eq (told_shapePicture dfa2)
      (draw_injective _ eq)
    exact List.map_injective_iff.mpr shapeNode_injective (Picture.mk.inj pictures).2
  · intro shape_eq
    rw [ofDfa_eq, ofDfa_eq, shape_eq]

/-! ## Tables -/

/-- The line for an entry says that there is an edge from its state to its next state, with the
label of its byte. -/
def entryItem (entry : Table.Entry) : Item :=
  .edge entry.state.toNat entry.next.toNat (.symbol entry.symbol)

/-- The edges that a drawing shows are the entries of the table. -/
theorem filter_isEdge_shapePicture {dfa : Dfa} (patternId : UInt8)
    (fits : dfa.order.length ≤ tableStateSpace) :
    (shapePicture dfa.shape).items.filter Item.isEdge =
      (dfa.tableEntries patternId).map entryItem := by
  rw [Picture.filter_isEdge_items, shapePicture, Dfa.tableEntries, Dfa.shape, List.map_map,
    List.zipIdx_map, List.flatMap_map, List.map_flatMap]
  apply List.flatMap_congr
  rintro ⟨id, place⟩ sourceMem
  have placeLt := Nat.lt_of_lt_of_le (List.snd_lt_of_mem_zipIdx sourceMem) fits
  have nonempty := List.ne_nil_of_mem (List.fst_mem_of_mem_zipIdx sourceMem)
  simp only [Prod.map, Function.comp_apply, shapeNode, id_eq, List.map_map]
  apply List.map_congr_left
  rintro ⟨symbol, target⟩ -
  have targetLt := Nat.lt_of_lt_of_le (Dfa.getD_places_lt nonempty target) fits
  simp only [Function.comp_apply, entryItem, toNat_toUInt16 placeLt, toNat_toUInt16 targetLt]

theorem labelledLines_ofDfa {dfa : Dfa} {patternId : UInt8} {table : Table}
    (emitted : dfa.emit patternId = .ok table) :
    labelledLines (ofDfa dfa) = table.entries.map fun entry => (entryItem entry).text.toList := by
  obtain ⟨fits, made⟩ := Dfa.of_emit_eq_ok emitted
  rw [ofDfa_eq, labelledLines_draw (by decide), filter_isEdge_shapePicture patternId fits,
    Dfa.entries_eq_tableEntries fits made, List.map_map]
  rfl

/-! ## Nondeterministic automata -/

/-- The node for a state. -/
def nfaNode (nfa : Nfa) (id : Nat) : Node where
  accepting := id == nfa.terminate
  edges := (nfa.edges id).map fun edge => (edge.target, edge.label)

/-- The picture of a nondeterministic automaton. -/
def nfaPicture (nfa : Nfa) : Picture where
  start? := some nfa.start
  nodes := (List.range nfa.size).map (nfaNode nfa)

theorem ofNfa_eq (nfa : Nfa) : ofNfa nfa = draw "nfa" (nfaPicture nfa).items := by
  have numbered : (nfaPicture nfa).nodes.zipIdx =
      (List.range nfa.size).map fun id => (nfaNode nfa id, id) := by
    apply List.ext_getElem
    · simp [nfaPicture]
    · intro id idLt _
      simp [nfaPicture]
  have states : (List.range nfa.size).flatMap (nfaStateLines nfa) =
      (nfaPicture nfa).nodes.zipIdx.flatMap fun numbered =>
        stateLines numbered.2 numbered.1.accepting
          (numbered.1.edges.map fun edge => (edge.1, edgeLabel edge.2)) := by
    simp only [numbered, List.flatMap_map, nfaNode, List.map_map]
    rfl
  have start : startLine nfa.start =
      String.join ((nfaPicture nfa).start?.toList.map startLine) := rfl
  rw [draw_items, ← start, ← states]
  rfl

/-- The automaton is what some builder returns for some fragment. -/
def Finished (nfa : Nfa) : Prop :=
  ∃ (builder : Nfa.Builder) (fragment : Nfa.Fragment), builder.finish? fragment = some nfa

theorem finished_of_nfaOfSource {options : CompileOptions} {source : String} {nfa : Nfa}
    (built : nfaOfSource options source = .ok nfa) : Finished nfa := by
  simp only [nfaOfSource] at built
  split at built
  · cases built
  · rename_i fragment builder _
    cases finished : builder.finish? fragment with
    | none =>
        rw [finished] at built
        cases built
    | some nfa2 =>
        rw [finished] at built
        cases built
        exact ⟨builder, fragment, finished⟩

theorem getElem?_nodes_nfaPicture {nfa : Nfa} {id : Nat} {node : Node} :
    (nfaPicture nfa).nodes[id]? = some node ↔ id < nfa.size ∧ node = nfaNode nfa id := by
  rw [nfaPicture, List.getElem?_map, Option.map_eq_some_iff]
  constructor
  · rintro ⟨_, placed, rfl⟩
    obtain ⟨idLt, rfl⟩ := List.getElem?_eq_some_iff.mp placed
    rw [List.length_range] at idLt
    exact ⟨idLt, by rw [List.getElem_range]⟩
  · rintro ⟨idLt, rfl⟩
    exact ⟨id, List.getElem?_range idLt, rfl⟩

theorem Finished.told {nfa : Nfa} (finished : Finished nfa) : (nfaPicture nfa).Told where
  start_iff := by
    have size_pos := Nat.zero_lt_of_lt nfa.start_lt_size
    simp [nfaPicture, Nfa.size, Nat.ne_of_gt size_pos]
  mentioned := by
    intro id node placed pos
    obtain ⟨builder, fragment, finished⟩ := finished
    obtain ⟨idLt, rfl⟩ := getElem?_nodes_nfaPicture.mp placed
    by_cases isExit : id = nfa.terminate
    · exact .inl (beq_iff_eq.mpr isExit)
    · have renumbers := Nfa.Builder.renumbers_of_finish? finished
      obtain ⟨source, sourceLt, edge, edgeMem, target_eq⟩ :=
        renumbers.exists_edge idLt pos isExit
      refine .inr ⟨nfaNode nfa source,
        List.mem_of_getElem? (getElem?_nodes_nfaPicture.mpr ⟨sourceLt, rfl⟩), ?_⟩
      simp only [nfaNode, List.map_map, List.mem_map]
      exact ⟨edge, edgeMem, target_eq⟩
  target_lt := by
    intro node nodeMem target targetMem
    obtain ⟨id, -, rfl⟩ := List.mem_map.mp nodeMem
    simp only [nfaNode, List.map_map, List.mem_map] at targetMem
    obtain ⟨edge, edgeMem, rfl⟩ := targetMem
    rw [nfaPicture, List.length_map, List.length_range]
    exact Nfa.target_lt_of_mem_edges edgeMem

theorem nfaPicture_injective : Function.Injective nfaPicture := by
  intro nfa nfa2 eq
  have size_eq : nfa.size = nfa2.size := by
    simpa [nfaPicture] using congrArg (fun picture => picture.nodes.length) eq
  have node_eq {id : Nat} (idLt : id < nfa.size) : nfaNode nfa id = nfaNode nfa2 id := by
    have placed := getElem?_nodes_nfaPicture.mpr ⟨idLt, rfl⟩
    rw [eq] at placed
    exact (getElem?_nodes_nfaPicture.mp placed).2
  have start_eq : nfa.start = nfa2.start := Option.some.inj (Picture.mk.inj eq).1
  have terminate_eq : nfa.terminate = nfa2.terminate := by
    have marked := congrArg Node.accepting (node_eq nfa.terminate_lt_size)
    simpa [nfaNode] using marked
  have edges_eq {id : Nat} (idLt : id < nfa.size) : nfa.edges id = nfa2.edges id := by
    apply List.map_injective_iff.mpr _ (congrArg Node.edges (node_eq idLt))
    rintro ⟨label, target⟩ ⟨label2, target2⟩ same
    obtain ⟨rfl, rfl⟩ := Prod.mk.inj same
    rfl
  have states_eq : nfa.states = nfa2.states := by
    apply Array.ext size_eq
    intro id idLt idLt2
    have edges := edges_eq idLt
    simp only [Nfa.edges, Nfa.edgesAt, Array.getElem?_eq_getElem idLt,
      Array.getElem?_eq_getElem idLt2] at edges
    exact Nfa.State.mk.injEq _ _ _ _ ▸ edges
  cases nfa
  cases nfa2
  cases start_eq
  cases terminate_eq
  cases states_eq
  rfl

theorem ofNfa_eq_iff {nfa nfa2 : Nfa} (finished : Finished nfa) (finished2 : Finished nfa2) :
    ofNfa nfa = ofNfa nfa2 ↔ nfa = nfa2 := by
  constructor
  · intro eq
    rw [ofNfa_eq, ofNfa_eq] at eq
    exact nfaPicture_injective (finished.told.eq_of_items_eq finished2.told (draw_injective _ eq))
  · rintro rfl
    rfl

/-! ## What drawings tell -/

/-- The drawings of deterministic automata are equal exactly when their descriptions are, and
those of finished automata exactly when these are equal.  Where an automaton has a table, the
labelled lines of its drawing are the entries in order, each with its state, its next state and
the label of its byte, which no other byte has. -/
theorem drawings_tell :
    (∀ dfa dfa2 : Dfa, ofDfa dfa = ofDfa dfa2 ↔ dfa.shape = dfa2.shape) ∧
      (∀ nfa nfa2 : Nfa, Finished nfa → Finished nfa2 → (ofNfa nfa = ofNfa nfa2 ↔ nfa = nfa2)) ∧
      (∀ (dfa : Dfa) (patternId : UInt8) (table : Table), dfa.emit patternId = .ok table →
        labelledLines (ofDfa dfa) =
          table.entries.map fun entry => (entryItem entry).text.toList) ∧
      Function.Injective symbolLabel :=
  ⟨fun _ _ => ofDfa_eq_iff, fun _ _ => ofNfa_eq_iff, fun _ _ _ => labelledLines_ofDfa,
    symbolLabel_injective⟩

/-- Two patterns of one byte each have different drawings, and the table of a pattern is in its
drawing. -/
theorem drawings_tell_patterns :
    (∃ nfa nfa2, nfaOfSource .default "a" = .ok nfa ∧ nfaOfSource .default "b" = .ok nfa2 ∧
        ofNfa nfa ≠ ofNfa nfa2) ∧
      ∃ compilation table, compile .default "a" = .ok compilation ∧
        compilation.automaton.emit 1 = .ok table ∧
        labelledLines (ofDfa compilation.automaton) =
          table.entries.map fun entry => (entryItem entry).text.toList := by
  have read : Pattern.read CompileOptions.default.nestingLimit "a" = .ok (.symbol 97) := rfl
  have read2 : Pattern.read CompileOptions.default.nestingLimit "b" = .ok (.symbol 98) := rfl
  have enough : ¬ CompileOptions.default.nfaLimit < 2 := by decide
  constructor
  · rcases nfaOfSource_cases read with ⟨-, nfa, built, recognizes, -⟩ | ⟨tooMany, -⟩
    · rcases nfaOfSource_cases read2 with ⟨-, nfa2, built2, recognizes2, -⟩ | ⟨tooMany, -⟩
      · refine ⟨nfa, nfa2, built, built2, ?_⟩
        rw [ne_eq, drawings_tell.2.1 nfa nfa2 (finished_of_nfaOfSource built)
          (finished_of_nfaOfSource built2)]
        rintro rfl
        have word : [97] ∈ (CompileOptions.default.augment (.symbol 97)).language := rfl
        have word2 : ([97] : List UInt8) = [98] :=
          (recognizes2.path_iff [97]).mp ((recognizes.path_iff [97]).mpr word)
        exact absurd word2 (by decide)
      · exact absurd tooMany enough
    · exact absurd tooMany enough
  · obtain ⟨compilation, done⟩ := exists_compile_eq_ok read (by decide) (by decide)
    have compiled := compiled_of_compile done
    obtain ⟨table, made, -⟩ := compiled.exists_table (by decide)
    rw [Compilation.table, compiled.patternId_eq] at made
    exact ⟨compilation, table, done, made, drawings_tell.2.2.1 _ _ table made⟩

end ByteSignature.Graphviz
