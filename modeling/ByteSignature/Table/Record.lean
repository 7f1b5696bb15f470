import ByteSignature.Table.Basic

/-!
# Tables as fixed-size records

A record has eight bytes, a key followed by a value:

    key   = state, low byte then high byte | byte | padding
    value = padding | accept flag | next state, low byte then high byte

Padding is zero.  The four bytes of a key, read as a number with the low byte first,
are the place of the entry in a flat array.
-/

namespace ByteSignature.Table

/-- The low byte and then the high byte of a state. -/
def stateBytes (state : UInt16) : List UInt8 :=
  [state.toUInt8, (state >>> 8).toUInt8]

/-- The state with the given low byte and high byte. -/
def stateOfBytes (low high : UInt8) : UInt16 :=
  low.toUInt16 ||| (high.toUInt16 <<< 8)

/-- The bytes of a key. -/
def encodeKey (key : Key) : List UInt8 :=
  stateBytes key.state ++ [key.symbol, 0]

/-- The bytes of a value. -/
def encodeValue (transition : Transition) : List UInt8 :=
  [0, transition.accept] ++ stateBytes transition.next

/-- The number that some bytes spell, low byte first. -/
def numberOfBytes (bytes : List UInt8) : Nat :=
  bytes.foldr (fun byte number => byte.toNat + 256 * number) 0

/-- The place of a key in a flat array. -/
def arrayIndex (key : Key) : Nat :=
  numberOfBytes (encodeKey key)

/-- The bytes of an entry. -/
def encodeEntry (entry : Entry) : List UInt8 :=
  encodeKey entry.key ++ encodeValue entry.transition

/-- The records of a table. -/
def encode (table : Table) : List UInt8 :=
  table.entries.flatMap encodeEntry

/-- Why some bytes are no records of a table. -/
inductive RecordFault where
  /-- The last record is cut short. -/
  | truncated (size : Nat)
  /-- The record with this number, counted from zero, has padding that is not zero. -/
  | padding (index : Nat)
  | duplicate (second : Duplicate)
  deriving DecidableEq, Repr

/-- The report of what is wrong with some records. -/
def RecordFault.message : RecordFault → String
  | truncated size =>
      "key/value buffer of " ++ toString size ++ " bytes is not a whole number of records"
  | padding index => "record " ++ toString index ++ " has nonzero padding"
  | duplicate second => second.message

/-- Add the entries of some records to a table.  The first record has the given number,
and `size` is the size of all records. -/
def readRecords (size : Nat) : (index : Nat) → Table → List UInt8 →
    Except RecordFault Table
  | _, table, [] => .ok table
  | index, table,
      low :: high :: symbol :: keyPadding :: valuePadding :: accept :: nextLow :: nextHigh ::
        rest =>
      if keyPadding != 0 || valuePadding != 0 then
        .error (.padding index)
      else
        match table.insert
            ⟨stateOfBytes low high, symbol, stateOfBytes nextLow nextHigh, accept⟩ with
        | .error second => .error (.duplicate second)
        | .ok next => readRecords size (index + 1) next rest
  | _, _, _ => .error (.truncated size)

/-- The table of some records.  Their total size is checked first. -/
def decode (bytes : List UInt8) : Except RecordFault Table :=
  if bytes.length % 8 = 0 then
    readRecords bytes.length 0 .empty bytes
  else
    .error (.truncated bytes.length)

end ByteSignature.Table
