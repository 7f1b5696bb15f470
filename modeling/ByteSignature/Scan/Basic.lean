import ByteSignature.Table.Dense

/-!
# Scanning payloads

A scan reads a payload byte by byte from state 0.  Where there is a transition, it goes
on in the next state, and ends with a match when the transition carries a pattern id;
where there is none, it starts over in state 0 behind that byte.
-/

namespace ByteSignature

/-- The first accepting transition of a scan. -/
structure ScanMatch where
  patternId : UInt8
  /-- The offset of the byte that completed the match. -/
  stop : Nat
  /-- The state that the byte led to. -/
  state : UInt16
  deriving DecidableEq, Repr

namespace DenseTable

/-- Scan some bytes from a state.  The first of them has the given offset. -/
def scanFrom (dense : DenseTable) : (state : UInt16) → (offset : Nat) → List UInt8 →
    Option ScanMatch
  | _, _, [] => none
  | state, offset, byte :: rest =>
      match dense.lookup state byte with
      | none => dense.scanFrom 0 (offset + 1) rest
      | some transition =>
          if transition.isAccepting then
            some ⟨transition.accept, offset, transition.next⟩
          else
            dense.scanFrom transition.next (offset + 1) rest

/-- The part of a payload that a scan of at most `depth` bytes sees. -/
def visible (depth : Option Nat) (payload : List UInt8) : List UInt8 :=
  match depth with
  | none => payload
  | some depth => payload.take depth

/-- Scan the first bytes of a payload, or all of it. -/
def scan (dense : DenseTable) (depth : Option Nat) (payload : List UInt8) :
    Option ScanMatch :=
  dense.scanFrom 0 0 (visible depth payload)

/-- The accept flag of the last transition that some bytes take from a state, when every
byte has one.  `accept` is the flag of the transition taken before. -/
def lastAccept (dense : DenseTable) : (state : UInt16) → (accept : UInt8) → List UInt8 →
    Option UInt8
  | _, accept, [] => if accept = 0 then none else some accept
  | state, _, byte :: rest =>
      match dense.lookup state byte with
      | none => none
      | some transition => dense.lastAccept transition.next transition.accept rest

/-- The pattern id that exactly the given bytes lead to. -/
def acceptsExact (dense : DenseTable) (input : List UInt8) : Option UInt8 :=
  dense.lastAccept 0 0 input

end DenseTable

end ByteSignature
