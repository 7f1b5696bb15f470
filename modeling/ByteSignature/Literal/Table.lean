import ByteSignature.Compile.Options
import ByteSignature.Literal.Automaton

/-!
# Tables of literal sets

For whole inputs, the table has the edges of the trie, and at every node where a literal
ends an edge for the end marker, which carries the literal's id and leads to one further
state.  For searching, the table has the completed moves of the trie, and an entry
carries the id of the literal that ends where it leads.
-/

namespace ByteSignature.LiteralSet

/-- The entries for a node of the trie when whole inputs are matched. -/
def anchoredEntries (trie : Trie) (id : Nat) : List Table.Entry :=
  let node := trie.node id
  let edges := node.children.map fun child =>
    { state := id.toUInt16, symbol := child.1, next := child.2.toUInt16, accept := 0 }
  let marker :=
    if node.output = 0 then
      []
    else
      [{ state := id.toUInt16, symbol := endMarker, next := trie.size.toUInt16
         accept := node.output }]
  edges ++ marker

/-- The entries for a node of the trie when payloads are searched. -/
def searchEntries (links : Trie.Links) (id : Nat) : List Table.Entry :=
  (links.movesOf id).map fun move =>
    { state := id.toUInt16, symbol := move.1, next := move.2.toUInt16
      accept := links.outputOf move.2 }

/-- Some states fit under a bound. -/
def checkStates (needed limit : Nat) : Except CompileError Unit :=
  if limit < needed then .error (.limit ⟨.tableStates, limit, needed⟩) else .ok ()

/-- The table of some entries. -/
def tableOf (entries : List Table.Entry) : Except CompileError Table :=
  match Table.ofEntries entries with
  | .error second => .error (.duplicate second)
  | .ok table => .ok table

/-- The table of a set for whole inputs. -/
def anchoredTable (set : LiteralSet) (limit : Nat) : Except CompileError Table :=
  match set.markerIndex? with
  | some index => .error (.invalidLiteral index .containsMarker)
  | none =>
      let trie := Trie.ofSet set
      match checkStates (trie.size + 1) limit with
      | .error error => .error error
      | .ok () => tableOf ((List.range trie.size).flatMap (anchoredEntries trie))

/-- The table of a set for searching payloads. -/
def searchTable (set : LiteralSet) (limit : Nat) : Except CompileError Table :=
  let trie := Trie.ofSet set
  match checkStates trie.size limit with
  | .error error => .error error
  | .ok () => tableOf (trie.order.flatMap (searchEntries trie.links))

/-- The table of a set. -/
def compile (options : CompileOptions) (set : LiteralSet) : Except CompileError Table :=
  if options.anchored then set.anchoredTable options.dfaLimit
  else set.searchTable options.dfaLimit

end ByteSignature.LiteralSet

namespace ByteSignature

/-- The table of some literals, whose ids are their places in the list. -/
def compileLiterals (options : CompileOptions) (literals : List (List UInt8)) :
    Except CompileError Table :=
  match LiteralSet.ofList literals with
  | .error error => .error error
  | .ok set => set.compile options

end ByteSignature
