import ByteSignature.Table.Basic
import ByteSignature.Text.Blank
import ByteSignature.Text.Decimal
import ByteSignature.Text.Lines

/-!
# Tables as text

One entry stands on one line: state, byte, next state and accept flag, with a space
between.  Reading takes any blanks between the four fields, and skips blank lines.
-/

namespace ByteSignature.Table

/-- The numbers of a row, by the name that messages give them. -/
inductive NumberField where
  | state
  | next
  | accept
  deriving DecidableEq, Repr

/-- The name of a number in messages. -/
def NumberField.name : NumberField → String
  | state => "state"
  | next => "next state"
  | accept => "accept flag"

/-- The largest value of a number. -/
def NumberField.bound : NumberField → Nat
  | state | next => 65535
  | accept => 255

/-- What can be wrong with a line. -/
inductive LineFault where
  | fieldCount (found : Nat)
  | number (field : NumberField) (text : List Char)
  | symbolEscape (text : List Char)
  | symbol (text : List Char)
  | duplicate (second : Duplicate)
  deriving DecidableEq, Repr

/-- The report of what is wrong with a line. -/
def LineFault.message : LineFault → String
  | fieldCount found => "expected 4 fields, found " ++ toString found
  | number field text => "invalid " ++ field.name ++ " `" ++ String.ofList text ++ "`"
  | symbolEscape text => "invalid symbol escape `" ++ String.ofList text ++ "`"
  | symbol text => "invalid symbol `" ++ String.ofList text ++ "`"
  | duplicate second => second.message

/-- The first line that is no row, counted from one, and what is wrong with it. -/
structure MalformedLine where
  line : Nat
  fault : LineFault
  deriving DecidableEq, Repr

/-- The report of a malformed line. -/
def MalformedLine.message (malformed : MalformedLine) : String :=
  "line " ++ toString malformed.line ++ ": " ++ malformed.fault.message

/-! ## Writing -/

/-- The line of an entry, with its break. -/
def renderEntry (entry : Entry) : List Char :=
  Text.decimal entry.state.toNat ++ ' ' :: Symbol.spell entry.symbol ++
    ' ' :: Text.decimal entry.next.toNat ++ ' ' :: Text.decimal entry.accept.toNat ++ ['\n']

/-- The text of a table. -/
def renderText (table : Table) : String :=
  String.ofList (table.entries.flatMap renderEntry)

/-! ## Reading -/

/-- The value of a hexadecimal digit of either case. -/
def hexDigitValue? (digit : Char) : Option Nat :=
  if '0' ≤ digit ∧ digit ≤ '9' then
    some (digit.toNat - 48)
  else if 'a' ≤ digit ∧ digit ≤ 'f' then
    some (digit.toNat - 87)
  else if 'A' ≤ digit ∧ digit ≤ 'F' then
    some (digit.toNat - 55)
  else
    none

/-- The byte that the two places behind `\x` spell.  A plus sign may stand in the first
place, and then the second alone counts. -/
def escapedByte? (first second : Char) : Option UInt8 :=
  match hexDigitValue? second with
  | none => none
  | some low =>
      if first = '+' then
        some low.toUInt8
      else
        (hexDigitValue? first).map fun high => (16 * high + low).toUInt8

/-- The byte that a field spells. -/
def readSymbol (field : List Char) : Except LineFault UInt8 :=
  match field with
  | [character] =>
      if character.toNat < 128 ∧ character ≠ '\\' then
        .ok character.toNat.toUInt8
      else
        .error (.symbol field)
  | ['\\', 'x', first, second] =>
      if first.toNat < 128 ∧ second.toNat < 128 then
        match escapedByte? first second with
        | some byte => .ok byte
        | none => .error (.symbolEscape field)
      else
        .error (.symbol field)
  | ['\\', 'x', character] =>
      if character.utf8Size = 2 then .error (.symbolEscape field) else .error (.symbol field)
  | _ => .error (.symbol field)

/-- The number that a field spells. -/
def readNumber (name : NumberField) (field : List Char) : Except LineFault Nat :=
  match Text.boundedDecimal? name.bound field with
  | some value => .ok value
  | none => .error (.number name field)

/-- The entry that the fields of a line spell. -/
def readFields (fields : List (List Char)) : Except LineFault Entry :=
  match fields with
  | [state, symbol, next, accept] => do
      let state ← readNumber .state state
      let symbol ← readSymbol symbol
      let next ← readNumber .next next
      let accept ← readNumber .accept accept
      return ⟨state.toUInt16, symbol, next.toUInt16, accept.toUInt8⟩
  | _ => .error (.fieldCount fields.length)

/-- Add the entry of a line, if there is one, to a table. -/
def readLine (table : Table) (line : List Char) : Except LineFault Table :=
  let fields := Text.words line
  if fields.isEmpty then
    .ok table
  else
    match readFields fields with
    | .error fault => .error fault
    | .ok entry =>
        match table.insert entry with
        | .error second => .error (.duplicate second)
        | .ok next => .ok next

/-- Add the entries of some lines to a table.  The first line has the given number. -/
def readLines : (number : Nat) → Table → List (List Char) → Except MalformedLine Table
  | _, table, [] => .ok table
  | number, table, line :: lines =>
      match readLine table line with
      | .error fault => .error ⟨number, fault⟩
      | .ok next => readLines (number + 1) next lines

/-- The table of a text. -/
def parseText (text : String) : Except MalformedLine Table :=
  readLines 1 .empty (Text.lines text.toList)

end ByteSignature.Table
