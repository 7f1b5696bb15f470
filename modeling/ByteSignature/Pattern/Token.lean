import ByteSignature.Text.Utf8

/-!
# Pattern tokens

A pattern is cut into pieces that tile it.  Letters, digits and operators are pieces of one
character; a run of blanks is one piece, and so is a run of characters that no pattern can
contain.  Positions count the bytes of the UTF-8 form of the text.

A recognizer goes through the text first.  It knows no class for characters outside the pattern
alphabet and hands them out one by one, and the loop over what it hands out gathers them into
pieces of their own class.
-/

namespace ByteSignature

/-- The classes that the characters of a pattern fall into. -/
inductive TokenKind where
  | symbol
  | openParen
  | closeParen
  | pipe
  | star
  | plus
  | question
  | blank
  | garbage
  deriving DecidableEq, Repr

namespace TokenKind

/-- The class of a character. -/
def ofChar (character : Char) : TokenKind :=
  if character.isAlphanum then
    symbol
  else
    match character with
    | '(' => openParen
    | ')' => closeParen
    | '|' => pipe
    | '*' => star
    | '+' => plus
    | '?' => question
    | ' ' | '\t' | '\r' | '\n' => blank
    | _ => garbage

/-- Blanks separate nothing and are skipped by the reader. -/
def isBlank (kind : TokenKind) : Bool :=
  kind == blank

/-- Operators that repeat the operand before them. -/
def isRepetition : TokenKind → Bool
  | star | plus | question => true
  | _ => false

/-- Tokens that stand where an operand is juxtaposed to the one before.  Characters
outside the pattern alphabet count, so that they are reported as such. -/
def startsTerm : TokenKind → Bool
  | symbol | openParen | garbage => true
  | _ => false

end TokenKind

/-! ## Pieces -/

/-- A range that the recognizer hands out, with its class unless it holds a character that is
not recognized. -/
structure Recognized where
  kind? : Option TokenKind
  start : Nat
  stop : Nat
  deriving DecidableEq, Repr

/-- What the recognizer hands out for some characters, the first of which stands at byte offset
`start`: the longest run of blanks where there is one, and one character else. -/
def Recognized.ofChars : (start : Nat) → List Char → List Recognized
  | _, [] => []
  | start, character :: rest =>
      let stop := start + character.utf8Size
      let items := ofChars stop rest
      match TokenKind.ofChar character, items with
      | .garbage, _ => ⟨none, start, stop⟩ :: items
      | .blank, ⟨some .blank, _, last⟩ :: later => ⟨some .blank, start, last⟩ :: later
      | kind, _ => ⟨some kind, start, stop⟩ :: items

/-- A range of bytes, from `start` up to but not including `stop`, and its class. -/
structure Piece where
  kind : TokenKind
  start : Nat
  stop : Nat
  deriving DecidableEq, Repr

namespace Piece

/-- The piece of unrecognized characters that ends at an offset, if one was begun. -/
def closeRun (begun? : Option Nat) (stop : Nat) : List Piece :=
  match begun? with
  | none => []
  | some start => [⟨.garbage, start, stop⟩]

/-- The pieces of a text of some size, gathered from what the recognizer hands out.  A run of
unrecognized characters may have been begun before. -/
def gather (size : Nat) : (begun? : Option Nat) → List Recognized → List Piece
  | begun?, [] => closeRun begun? size
  | begun?, ⟨some kind, start, stop⟩ :: items =>
      closeRun begun? start ++ ⟨kind, start, stop⟩ :: gather size none items
  | begun?, ⟨none, start, _⟩ :: items => gather size (some (begun?.getD start)) items

/-- The pieces of a pattern. -/
def lex (source : String) : List Piece :=
  gather source.utf8ByteSize none (Recognized.ofChars 0 source.toList)

end Piece

/-! ## Tokens -/

/-- A piece of a pattern with its text: its class, and the byte offset where it starts. -/
structure Token where
  kind : TokenKind
  start : Nat
  text : List Char
  deriving DecidableEq, Repr

/-- The token that a piece cuts out of a pattern. -/
def Piece.token (source : String) (piece : Piece) : Token where
  kind := piece.kind
  start := piece.start
  text := (String.Pos.Raw.extract source ⟨piece.start⟩ ⟨piece.stop⟩).toList

namespace Token

/-- The byte offset just behind a token. -/
def stop (token : Token) : Nat :=
  token.start + Text.utf8Length token.text

/-- The tokens of a pattern. -/
def scan (source : String) : List Token :=
  (Piece.lex source).map (Piece.token source)

/-- The tokens of a pattern that are not blank. -/
def scanVisible (source : String) : List Token :=
  (scan source).filter fun token => !token.kind.isBlank

end Token

end ByteSignature
