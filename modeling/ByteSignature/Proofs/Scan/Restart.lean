import Mathlib.Computability.Language
import Mathlib.Order.Bounds.Basic

/-!
# Where a scan starts over

A scan for a language reads as long as what it has read since it last started over can be
completed to a word.  The byte that makes this impossible is not read again: the scan
starts over behind it.  A match ends at a byte when the bytes since the last restart are a
word there.  All of this speaks about the language and the payload only.
-/

namespace ByteSignature

/-- The text is a prefix of a word. -/
def Viable (language : Language UInt8) (text : List UInt8) : Prop :=
  ∃ rest, text ++ rest ∈ language

/-- The indices at which the bytes since a restart stop being a prefix of a word. -/
def misses (language : Language UInt8) (payload : List UInt8) (restart : Nat) : Set Nat :=
  {index | restart ≤ index ∧ index < payload.length ∧
    ¬ Viable language (payload.extract restart (index + 1))}

/-- The offsets at which a scan starts over: the first, and what follows the first miss
behind one of them. -/
inductive Restart (language : Language UInt8) (payload : List UInt8) : Nat → Prop where
  | first : Restart language payload 0
  | next {restart miss : Nat} (earlier : Restart language payload restart)
      (least : IsLeast (misses language payload restart) miss) :
      Restart language payload (miss + 1)

/-- The last restart up to an index. -/
def LastRestart (language : Language UInt8) (payload : List UInt8) (index restart : Nat) :
    Prop :=
  IsGreatest {offset | Restart language payload offset ∧ offset ≤ index} restart

/-- The bytes from the last restart up to the index are a word. -/
def EndsMatch (language : Language UInt8) (payload : List UInt8) (index : Nat) : Prop :=
  index < payload.length ∧ ∃ restart, LastRestart language payload index restart ∧
    payload.extract restart (index + 1) ∈ language

variable {language : Language UInt8} {payload text text2 : List UInt8}

end ByteSignature
