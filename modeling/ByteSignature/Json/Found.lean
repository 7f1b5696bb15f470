import ByteSignature.Json.Number
import ByteSignature.Json.Quotation
import ByteSignature.Text.Quoted

/-!
# Unexpected values

A value of the wrong kind is named in the report about it.  Words, numbers and strings
are read for that; of a list or an object only the opening bracket is looked at.
-/

namespace ByteSignature.Json

/-- A value where another kind of value belongs. -/
inductive Found where
  | null
  | boolean (value : Bool)
  | number (value : Number)
  | string (text : List Char)
  | list
  | object

/-- The name of a value in reports. -/
def Found.format : Found → String
  | null => "null"
  | boolean value => "boolean `" ++ (if value then "true" else "false") ++ "`"
  | number (.integer value) => "integer `" ++ toString value ++ "`"
  | number (.double value) => "floating point `" ++ formatDouble value ++ "`"
  | string text => "string " ++ String.ofList (Text.quoted text)
  | list => "sequence"
  | object => "map"

/-- Read a value of the wrong kind, whose first byte is given. -/
def readFound (byte : UInt8) (rest : List UInt8) :
    Except Fault (Found × List UInt8) :=
  if byte = byteOf 'n' then do
    return (.null, ← readWord "ull".toList rest)
  else if byte = byteOf 't' then do
    return (.boolean true, ← readWord "rue".toList rest)
  else if byte = byteOf 'f' then do
    return (.boolean false, ← readWord "alse".toList rest)
  else if startsNumeral byte then do
    let (value, rest) ← readNumber (byte :: rest)
    return (.number value, rest)
  else if byte = 0x22 then do
    let (text, rest) ← readString rest
    return (.string text, rest)
  else if byte = byteOf '[' then
    .ok (.list, byte :: rest)
  else if byte = 0x7b then
    .ok (.object, byte :: rest)
  else
    .error .malformed

end ByteSignature.Json
