import ByteSignature.Symbol
import Std.Data.ExtTreeMap.Lemmas

/-!
# Automaton tables

A table maps a state and a byte to the next state and an accept flag, which is zero or
the id of a pattern.  State 0 is the start, and a missing entry means that the byte
leads nowhere.  Entries are ordered by state and then by byte, and no state has two
entries for one byte.
-/

namespace ByteSignature

namespace Table

/-- What an entry is found by. -/
structure Key where
  state : UInt16
  symbol : UInt8
  deriving DecidableEq, Repr

/-- What an entry leads to. -/
structure Transition where
  next : UInt16
  accept : UInt8
  deriving DecidableEq, Repr

/-- A row of a table. -/
structure Entry where
  state : UInt16
  symbol : UInt8
  next : UInt16
  accept : UInt8
  deriving DecidableEq, Repr

namespace Key

/-- Keys are ordered by state and then by byte. -/
def compare : Key → Key → Ordering :=
  compareLex (compareOn Key.state) (compareOn Key.symbol)

instance : Std.TransCmp compare :=
  inferInstanceAs (Std.TransCmp (compareLex _ _))

instance : Std.LawfulEqCmp compare where
  eq_of_compare {first second} h := by
    simp only [compare, compareLex, compareOn, Ordering.then_eq_eq] at h
    cases first
    cases second
    simp_all

end Key

/-- The transition carries the id of a pattern. -/
def Transition.isAccepting (transition : Transition) : Bool :=
  transition.accept != 0

/-- The key of a row. -/
def Entry.key (entry : Entry) : Key :=
  ⟨entry.state, entry.symbol⟩

/-- What a row leads to. -/
def Entry.transition (entry : Entry) : Transition :=
  ⟨entry.next, entry.accept⟩

/-- The row for a key and what it leads to. -/
def Entry.ofPair (pair : Key × Transition) : Entry :=
  ⟨pair.1.state, pair.1.symbol, pair.2.next, pair.2.accept⟩

/-- A second row was given for a state and a byte. -/
structure Duplicate where
  key : Key
  deriving DecidableEq, Repr

/-- The two hexadecimal digits of a byte. -/
def hexByte (byte : UInt8) : List Char :=
  [Symbol.hexDigit (byte.toNat / 16), Symbol.hexDigit (byte.toNat % 16)]

/-- The report of a second row. -/
def Duplicate.message (duplicate : Duplicate) : String :=
  "duplicate transition for state " ++ toString duplicate.key.state.toNat ++
    " on symbol 0x" ++ String.ofList (hexByte duplicate.key.symbol)

end Table

/-- Transitions by state and byte. -/
structure Table where
  transitions : Std.ExtTreeMap Table.Key Table.Transition Table.Key.compare

namespace Table

/-- The table without entries. -/
def empty : Table :=
  ⟨∅⟩

/-- The entry for a state and a byte. -/
def lookup (table : Table) (state : UInt16) (symbol : UInt8) : Option Transition :=
  table.transitions[Key.mk state symbol]?

/-- Add an entry.  A second one for the same state and byte is refused. -/
def insert (table : Table) (entry : Entry) : Except Duplicate Table :=
  if table.transitions.contains entry.key then
    .error ⟨entry.key⟩
  else
    .ok ⟨table.transitions.insert entry.key entry.transition⟩

/-- Add entries from left to right, up to the first that is refused. -/
def insertMany (table : Table) : List Entry → Except Duplicate Table
  | [] => .ok table
  | entry :: entries =>
      match table.insert entry with
      | .error duplicate => .error duplicate
      | .ok next => next.insertMany entries

/-- The table of some entries, none of which may share a state and a byte. -/
def ofEntries (entries : List Entry) : Except Duplicate Table :=
  empty.insertMany entries

/-- The entries ordered by state and then by byte. -/
def entries (table : Table) : List Entry :=
  table.transitions.toList.map Entry.ofPair

/-- The number of entries. -/
def size (table : Table) : Nat :=
  table.transitions.size

/-- There is no entry. -/
def isEmpty (table : Table) : Bool :=
  table.size == 0

/-- One more than the largest state on either side of an entry.  The start counts. -/
def stateCount (table : Table) : Nat :=
  table.entries.foldl
    (fun count entry => max count (max entry.state.toNat entry.next.toNat + 1)) 1

/-- The last of the transitions that some bytes take from a state, when every byte has
one.  `last` is the transition taken before. -/
def walkFrom (table : Table) : (state : UInt16) → (last : Option Transition) →
    List UInt8 → Option Transition
  | _, last, [] => last
  | state, _, symbol :: rest =>
      match table.lookup state symbol with
      | none => none
      | some transition => table.walkFrom transition.next (some transition) rest

/-- The last of the transitions that some bytes take from the start.  There is none
for no bytes, nor when some byte has no transition. -/
def walk (table : Table) (input : List UInt8) : Option Transition :=
  table.walkFrom 0 none input

/-- The state that some bytes lead to, when every byte has a transition. -/
def stateAfter (table : Table) : UInt16 → List UInt8 → Option UInt16
  | state, [] => some state
  | state, symbol :: rest =>
      match table.lookup state symbol with
      | none => none
      | some transition => table.stateAfter transition.next rest

/-- The id of the pattern that a table for whole inputs finds in some bytes: the flag
behind them and the end marker. -/
def acceptsAnchored (table : Table) (input : List UInt8) : Option UInt8 :=
  match table.stateAfter 0 input with
  | none => none
  | some state =>
      match table.lookup state endMarker with
      | none => none
      | some transition =>
          if transition.isAccepting then some transition.accept else none

end Table

end ByteSignature
