import ByteSignature.Json.Found
import ByteSignature.Json.Skip
import ByteSignature.Table.Exchange
import ByteSignature.Text.Decimal

/-!
# Entries as JSON

A library for lists of entries.  An entry is an object with the fields `state`, `symbol`,
`next_state` and `accept`, or a list of these four numbers.  Fields may come in any
order, each of them once, and fields of other names are skipped.  The first thing that
is wrong decides which fault is reported.
-/

namespace ByteSignature.Table

/-- The fields of an entry, in the order in which they are written. -/
inductive Field where
  | state
  | symbol
  | next
  | accept
  deriving DecidableEq, Repr

namespace Field

/-- All fields, in the order in which they are written. -/
def all : List Field :=
  [state, symbol, next, accept]

/-- The key of a field. -/
def name : Field → String
  | state => "state"
  | symbol => "symbol"
  | next => "next_state"
  | accept => "accept"

/-- The field with a key. -/
def ofName? (name : String) : Option Field :=
  all.find? fun field => field.name = name

/-- The bits that a value of the field may have. -/
def width : Field → Nat
  | state | next => 16
  | symbol | accept => 8

/-- The greatest value of the field. -/
def greatest : Field → Nat
  | state | next => 65535
  | symbol | accept => 255

/-- The value of a field of an entry. -/
def get (entry : Entry) : Field → Nat
  | state => entry.state.toNat
  | symbol => entry.symbol.toNat
  | next => entry.next.toNat
  | accept => entry.accept.toNat

end Field

/-! ## Writing -/

/-- White space in a written list. -/
structure JsonSpacing where
  /-- In front of an entry. -/
  entry : String
  /-- In front of a field. -/
  field : String
  /-- Between a key and its value, behind the colon. -/
  value : String
  /-- In front of the bracket that closes an entry. -/
  closeEntry : String
  /-- In front of the bracket that closes the list, when there are entries. -/
  closeList : String

namespace JsonSpacing

/-- One line for each bracket and each field, indented by two spaces for each open
bracket. -/
def indented : JsonSpacing :=
  ⟨"\n  ", "\n    ", " ", "\n  ", "\n"⟩

/-- No white space. -/
def compact : JsonSpacing :=
  ⟨"", "", "", "", ""⟩

end JsonSpacing

/-- The written form of an entry. -/
def renderJsonEntry (spacing : JsonSpacing) (entry : Entry) : String :=
  let field (field : Field) : String :=
    spacing.field ++ "\"" ++ field.name ++ "\":" ++ spacing.value ++
      toString (field.get entry)
  spacing.entry ++ "\x7b" ++ ",".intercalate (Field.all.map field) ++ spacing.closeEntry ++
    "\x7d"

/-- The written form of a list of entries. -/
def renderJson (spacing : JsonSpacing) (entries : List Entry) : String :=
  "[" ++ ",".intercalate (entries.map (renderJsonEntry spacing)) ++
    (if entries.isEmpty then "" else spacing.closeList) ++ "]"

/-! ## Faults -/

/-- What belongs in a place. -/
inductive Expected where
  | table
  | entry
  /-- A number that is not negative and has at most so many bits. -/
  | word (width : Nat)
  deriving DecidableEq, Repr

/-- The name of what belongs in a place. -/
def Expected.format : Expected → String
  | table => "a sequence"
  | entry => "struct TableEntry"
  | word width => "u" ++ toString width

/-- How a JSON text fails to describe a list of entries. -/
inductive Mismatch where
  /-- A value is of the wrong kind. -/
  | kind (found : Json.Found) (expected : Expected)
  /-- A number is out of range. -/
  | range (value : Int) (expected : Expected)
  /-- An entry that is a list is too short. -/
  | length (count : Nat)
  /-- An entry lacks a field. -/
  | missing (field : Field)
  /-- An entry has a field twice. -/
  | repeated (field : Field)

/-- The report of a mismatch. -/
def Mismatch.message : Mismatch → String
  | kind found expected =>
      "invalid type: " ++ found.format ++ ", expected " ++ expected.format
  | range value expected =>
      "invalid value: integer `" ++ toString value ++ "`, expected " ++ expected.format
  | length count =>
      "invalid length " ++ toString count ++ ", expected struct TableEntry with 4 elements"
  | missing field => "missing field `" ++ field.name ++ "`"
  | repeated field => "duplicate field `" ++ field.name ++ "`"

/-- Why reading stopped.  With a mismatch go the bytes that had not been read. -/
inductive JsonFault where
  | text (fault : Json.Fault)
  | mismatch (what : Mismatch) (rest : List UInt8)

/-- Why some bytes are no list of entries. -/
inductive LocatedFault where
  /-- They are no JSON text. -/
  | text (fault : Json.Fault)
  /-- They describe something else.  The line counts from one, and the column is the
  number of bytes that have been read of it. -/
  | mismatch (what : Mismatch) (line column : Nat)

namespace LocatedFault

/-- The fault of reading some bytes, with the place where it stopped. -/
def locate (bytes : List UInt8) : JsonFault → LocatedFault
  | .text fault => .text fault
  | .mismatch what rest =>
      let read := bytes.take (bytes.length - rest.length)
      let column := (read.reverse.takeWhile (· != 0x0a)).length
      .mismatch what (read.count 0x0a + 1) column

/-- The report of a fault. -/
def message : LocatedFault → String
  | text _ => "malformed JSON"
  | mismatch what line column =>
      what.message ++ " at line " ++ toString line ++ " column " ++ toString column

end LocatedFault

/-! ## Reading -/

/-- Let a fault of the text stop the reading of a table. -/
def liftFault {α : Type} : Except Json.Fault α → Except JsonFault α :=
  Except.mapError .text

/-- Report a value of the wrong kind, whose first byte is given. -/
def unexpected {α : Type} (expected : Expected) (byte : UInt8) (rest : List UInt8) :
    Except JsonFault α := do
  let (found, rest) ← liftFault (Json.readFound byte rest)
  .error (.mismatch (.kind found expected) rest)

/-- Read the value of a field. -/
def readValue (field : Field) (bytes : List UInt8) : Except JsonFault (Nat × List UInt8) :=
  match Json.skipBlanks bytes with
  | [] => .error (.text .ended)
  | byte :: rest =>
      let expected : Expected := .word field.width
      if Json.startsNumeral byte then do
        let (number, rest) ← liftFault (Json.readNumber (byte :: rest))
        match number with
        | .integer (.ofNat value) =>
            if value ≤ field.greatest then
              return (value, rest)
            else
              .error (.mismatch (.range value expected) rest)
        | .integer value => .error (.mismatch (.range value expected) rest)
        | .double _ => .error (.mismatch (.kind (.number number) expected) rest)
      else
        unexpected expected byte rest

/-- Look for the next item of a list, which is the first one or comes behind a comma.
There is none when the list ends; its bracket is left. -/
def nextItem (isFirst : Bool) (bytes : List UInt8) :
    Except JsonFault (Option (List UInt8)) :=
  match Json.skipBlanks bytes with
  | [] => .error (.text .ended)
  | byte :: rest =>
      if byte = Json.byteOf ']' then
        .ok none
      else if isFirst then
        .ok (some (byte :: rest))
      else if byte = Json.byteOf ',' then
        match Json.skipBlanks rest with
        | [] => .error (.text .ended)
        | byte :: rest =>
            if byte = Json.byteOf ']' then
              .error (.text .malformed)
            else
              .ok (some (byte :: rest))
      else
        .error (.text .malformed)

/-- Read the bracket that closes a list or an object. -/
def readClose (bracket : Json.Bracket) (bytes : List UInt8) :
    Except JsonFault (List UInt8) :=
  match Json.skipBlanks bytes with
  | [] => .error (.text .ended)
  | byte :: rest => if byte = bracket.close then .ok rest else .error (.text .malformed)

/-- Read the values of some fields from a list, of which `count` items have been
read. -/
def readItems : (count : Nat) → List Field → List UInt8 →
    Except JsonFault (List Nat × List UInt8)
  | _, [], bytes => .ok ([], bytes)
  | count, field :: fields, bytes => do
      match ← nextItem (count == 0) bytes with
      | none =>
          let rest ← readClose .list bytes
          .error (.mismatch (.length count) rest)
      | some bytes =>
          let (value, rest) ← readValue field bytes
          let (values, rest) ← readItems (count + 1) fields rest
          return (value :: values, rest)

/-- The values of an entry that have been read. -/
abbrev Draft : Type :=
  Field → Option Nat

namespace Draft

/-- No value has been read. -/
def empty : Draft :=
  fun _ => none

/-- The draft with one more value. -/
def set (draft : Draft) (field : Field) (value : Nat) : Draft :=
  fun other => if other = field then some value else draft other

/-- The draft with the values of all fields. -/
def ofValues (values : List Nat) : Draft :=
  (Field.all.zip values).foldl (fun draft pair => draft.set pair.1 pair.2) empty

/-- The value of a field, or the field itself when it has none. -/
def require (draft : Draft) (field : Field) : Except Field Nat :=
  match draft field with
  | some value => .ok value
  | none => .error field

/-- The entry of a draft, or its first field without a value. -/
def entry (draft : Draft) : Except Field Entry := do
  let state ← draft.require .state
  let symbol ← draft.require .symbol
  let next ← draft.require .next
  let accept ← draft.require .accept
  return ⟨state.toUInt16, symbol.toUInt8, next.toUInt16, accept.toUInt8⟩

end Draft

/-- The entry of a draft, with the bytes behind it. -/
def completeEntry (draft : Draft) (rest : List UInt8) :
    Except JsonFault (Entry × List UInt8) :=
  match draft.entry with
  | .ok entry => .ok (entry, rest)
  | .error field => .error (.mismatch (.missing field) rest)

/-- Look for the next key of an object, which is the first one or comes behind a comma.
There is none when the object ends; its bracket is left. -/
def nextKey (isFirst : Bool) (bytes : List UInt8) :
    Except JsonFault (Option (List Char × List UInt8)) := do
  let key (bytes : List UInt8) : Except Json.Fault (Option (List Char × List UInt8)) := do
    return some (← Json.readString (← Json.openKey bytes))
  match Json.skipBlanks bytes with
  | [] => .error (.text .ended)
  | byte :: rest =>
      if byte = 0x7d then
        return none
      else if isFirst then
        liftFault (key (byte :: rest))
      else if byte = Json.byteOf ',' then
        liftFault (key rest)
      else
        .error (.text .malformed)

/-- Report a field that comes twice.  A bracket that closes the object right behind the
key is read first. -/
def repeatedField {α : Type} (field : Field) (bytes : List UInt8) : Except JsonFault α :=
  match Json.skipBlanks bytes with
  | [] => .error (.mismatch (.repeated field) [])
  | byte :: rest =>
      .error (.mismatch (.repeated field) (if byte = 0x7d then rest else byte :: rest))

/-- Read the rest of an object that is an entry, in a number of steps.  Every step reads
a key, so more steps than bytes are enough. -/
def readMembers : (steps : Nat) → (isFirst : Bool) → Draft → List UInt8 →
    Except JsonFault (Entry × List UInt8)
  | 0, _, _, _ => .error (.text .ended)
  | steps + 1, isFirst, draft, bytes => do
      match ← nextKey isFirst bytes with
      | none => completeEntry draft (← readClose .object bytes)
      | some (key, rest) =>
          match Field.ofName? (String.ofList key) with
          | none =>
              let rest ← liftFault (Json.readColon rest)
              readMembers steps false draft (← liftFault (Json.skipValue steps rest))
          | some field =>
              if (draft field).isSome then
                repeatedField field rest
              else
                let rest ← liftFault (Json.readColon rest)
                let (value, rest) ← readValue field rest
                readMembers steps false (draft.set field value) rest

/-- Read an entry, in a number of steps that is at least the number of bytes. -/
def readEntry (steps : Nat) (bytes : List UInt8) :
    Except JsonFault (Entry × List UInt8) :=
  match Json.skipBlanks bytes with
  | [] => .error (.text .ended)
  | byte :: rest =>
      if byte = Json.byteOf '[' then do
        let (values, rest) ← readItems 0 Field.all rest
        completeEntry (.ofValues values) (← readClose .list rest)
      else if byte = 0x7b then
        readMembers steps true .empty rest
      else
        unexpected .entry byte rest

/-- Read the rest of a list of entries, in a number of steps.  Every step reads an
entry, so more steps than bytes are enough. -/
def readEntries : (steps : Nat) → (isFirst : Bool) → List UInt8 →
    Except JsonFault (List Entry × List UInt8)
  | 0, _, _ => .error (.text .ended)
  | steps + 1, isFirst, bytes => do
      match ← nextItem isFirst bytes with
      | none => return ([], ← readClose .list bytes)
      | some bytes =>
          let (entry, rest) ← readEntry steps bytes
          let (entries, rest) ← readEntries steps false rest
          return (entry :: entries, rest)

/-- Read a list of entries. -/
def readEntryList (bytes : List UInt8) : Except JsonFault (List Entry × List UInt8) :=
  match Json.skipBlanks bytes with
  | [] => .error (.text .ended)
  | byte :: rest =>
      if byte = Json.byteOf '[' then
        readEntries (rest.length + 1) true rest
      else
        unexpected .table byte rest

/-- Make sure that only blanks are left. -/
def readEnd (bytes : List UInt8) : Except LocatedFault Unit :=
  if (Json.skipBlanks bytes).isEmpty then .ok () else .error (.text .malformed)

end ByteSignature.Table

namespace ByteSignature

/-- The library that is brought along. -/
def JsonLibrary.builtIn : JsonLibrary where
  Fault := Table.LocatedFault
  message := Table.LocatedFault.message
  compact entries := .ok (Table.renderJson .compact entries).toUTF8.toList
  pretty entries := .ok (Table.renderJson .indented entries).toUTF8.toList
  read bytes := (Table.readEntryList bytes).mapError (.locate bytes)
  finish := Table.readEnd

end ByteSignature
