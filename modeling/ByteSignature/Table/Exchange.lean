import ByteSignature.Table.Basic

/-!
# Tables exchanged as JSON

A table is exchanged as the list of its entries.  Writing such lists and reading them is left
to a JSON library, and what has been read is made into a table here.
-/

namespace ByteSignature

/-- What a JSON library does with lists of entries. -/
structure JsonLibrary where
  /-- Why writing or reading failed. -/
  Fault : Type
  /-- The report of a fault. -/
  message : Fault → String
  /-- The written form of a list without white space. -/
  compact : List Table.Entry → Except Fault (List UInt8)
  /-- The written form of a list in lines. -/
  pretty : List Table.Entry → Except Fault (List UInt8)
  /-- Read the list that some bytes begin with.  The bytes behind it are left. -/
  read : List UInt8 → Except Fault (List Table.Entry × List UInt8)
  /-- Make sure that nothing but white space is left. -/
  finish : List UInt8 → Except Fault Unit

namespace Table

/-- Why some bytes are no table. -/
inductive JsonError (Fault : Type) where
  /-- They are no list of entries. -/
  | unread (fault : Fault)
  /-- Two entries share a state and a byte. -/
  | duplicate (second : Duplicate)

/-- The report of an error. -/
def JsonError.message (json : JsonLibrary) : JsonError json.Fault → String
  | unread fault => json.message fault
  | duplicate second => second.message

/-- The JSON form of a table without white space. -/
def toJson (json : JsonLibrary) (table : Table) : Except json.Fault (List UInt8) :=
  json.compact table.entries

/-- The JSON form of a table in lines. -/
def toJsonLines (json : JsonLibrary) (table : Table) : Except json.Fault (List UInt8) :=
  json.pretty table.entries

/-- The table of a JSON text.  Entries that share a state and a byte are reported before
anything that may stand behind the list. -/
def ofJson (json : JsonLibrary) (bytes : List UInt8) :
    Except (JsonError json.Fault) Table :=
  match json.read bytes with
  | .error fault => .error (.unread fault)
  | .ok (entries, rest) =>
      match ofEntries entries with
      | .error second => .error (.duplicate second)
      | .ok table =>
          match json.finish rest with
          | .error fault => .error (.unread fault)
          | .ok () => .ok table

end Table

end ByteSignature
