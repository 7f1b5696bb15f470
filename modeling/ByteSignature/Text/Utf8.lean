/-!
# UTF-8

Bytes are read as characters by a machine whose state is the part of a character that
has been read: how many bytes are owed, the bits so far, and the least and the greatest
byte that may come next.  A byte that may not come ends the character as a malformed
one and is read again as a beginning, so malformed bytes are grouped into the longest
pieces that begin some character.
-/

namespace ByteSignature.Text

/-- The number of bytes that some characters take. -/
def utf8Length (text : List Char) : Nat :=
  text.foldr (fun character size => character.utf8Size + size) 0

/-- The part of a character that has been read. -/
structure PartialChar where
  /-- How many bytes are owed. -/
  owed : Nat
  /-- The bits that the bytes so far have given. -/
  bits : Nat
  /-- The least byte that may come next. -/
  least : UInt8
  /-- The greatest byte that may come next. -/
  greatest : UInt8
  deriving DecidableEq, Repr

/-- What has been read: characters, with `none` for each malformed piece, and the
beginning of one more. -/
structure Utf8State where
  characters : Array (Option Char)
  open? : Option PartialChar

namespace Utf8State

/-- Nothing has been read. -/
def initial : Utf8State :=
  ⟨#[], none⟩

/-- Add a character or a malformed piece. -/
def push (state : Utf8State) (character? : Option Char) : Utf8State :=
  ⟨state.characters.push character?, none⟩

/-- Read a byte that begins a character.  The second byte is bounded so that no
character has a longer spelling than it needs, is a surrogate or passes `U+10FFFF`. -/
def start (state : Utf8State) (byte : UInt8) : Utf8State :=
  let begin (owed bits : Nat) (least greatest : UInt8) : Utf8State :=
    ⟨state.characters, some ⟨owed, bits, least, greatest⟩⟩
  let code := byte.toNat
  if code < 0x80 then state.push (some (Char.ofNat code))
  else if code < 0xc2 then state.push none
  else if code < 0xe0 then begin 1 (code - 0xc0) 0x80 0xbf
  else if code = 0xe0 then begin 2 0 0xa0 0xbf
  else if code = 0xed then begin 2 0xd 0x80 0x9f
  else if code < 0xf0 then begin 2 (code - 0xe0) 0x80 0xbf
  else if code = 0xf0 then begin 3 0 0x90 0xbf
  else if code < 0xf4 then begin 3 (code - 0xf0) 0x80 0xbf
  else if code = 0xf4 then begin 3 4 0x80 0x8f
  else state.push none

/-- Read a byte. -/
def step (state : Utf8State) (byte : UInt8) : Utf8State :=
  match state.open? with
  | none => state.start byte
  | some ⟨owed, bits, least, greatest⟩ =>
      if least ≤ byte ∧ byte ≤ greatest then
        let bits := 64 * bits + (byte.toNat - 0x80)
        if owed = 1 then
          state.push (some (Char.ofNat bits))
        else
          ⟨state.characters, some ⟨owed - 1, bits, 0x80, 0xbf⟩⟩
      else
        (state.push none).start byte

/-- What has been read when no more bytes come. -/
def finish (state : Utf8State) : List (Option Char) :=
  match state.open? with
  | none => state.characters.toList
  | some _ => (state.push none).characters.toList

end Utf8State

/-- The characters that some bytes spell, with `none` for each malformed piece. -/
def utf8Pieces (bytes : List UInt8) : List (Option Char) :=
  (bytes.foldl Utf8State.step .initial).finish

/-- The text that some bytes spell, with a replacement character for each malformed
piece. -/
def lossyText (bytes : List UInt8) : List Char :=
  (utf8Pieces bytes).map fun piece => piece.getD '\ufffd'

/-- The text that some bytes spell, when no piece is malformed. -/
def utf8Text? (bytes : List UInt8) : Option (List Char) :=
  (utf8Pieces bytes).mapM id

end ByteSignature.Text
