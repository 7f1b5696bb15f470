import ByteSignature.Palette
import ByteSignature.Scan.Basic
import ByteSignature.Text.Pad

/-!
# Tracing a scan

A scan is a sequence of events.  A trace has one line for each event that its level of
detail shows: the match and the end of the depth always, starting over out of a state
other than 0 from the first level on, and every byte at the highest level.
-/

namespace ByteSignature

/-- What happens during a scan. -/
inductive ScanEvent where
  /-- A byte led from one state to another. -/
  | step (offset : Nat) (byte : UInt8) (source target : UInt16)
  /-- A byte had no transition. -/
  | reset (offset : Nat) (byte : UInt8) (state : UInt16)
  /-- The transition for the byte at the offset carried a pattern id. -/
  | accept (offset : Nat) (patternId : UInt8)
  /-- The depth was reached before the end of the payload. -/
  | depthReached (depth : Nat)
  deriving DecidableEq, Repr

namespace DenseTable

/-- The events of scanning some bytes from a state, behind the events before, and
whether a match ended the scan.  The first byte has the given offset. -/
def eventsFrom (dense : DenseTable) : (state : UInt16) → (offset : Nat) →
    Array ScanEvent → List UInt8 → Bool × Array ScanEvent
  | _, _, events, [] => (false, events)
  | state, offset, events, byte :: rest =>
      match dense.lookup state byte with
      | none =>
          dense.eventsFrom 0 (offset + 1) (events.push (.reset offset byte state)) rest
      | some transition =>
          let events := events.push (.step offset byte state transition.next)
          if transition.isAccepting then
            (true, events.push (.accept offset transition.accept))
          else
            dense.eventsFrom transition.next (offset + 1) events rest

/-- The events of a scan. -/
def scanEvents (dense : DenseTable) (depth : Option Nat) (payload : List UInt8) :
    List ScanEvent :=
  let seen := visible depth payload
  let scanned := dense.eventsFrom 0 0 #[] seen
  if !scanned.1 && seen.length < payload.length then
    (scanned.2.push (.depthReached seen.length)).toList
  else
    scanned.2.toList

end DenseTable

namespace ScanEvent

/-- A trace of the given level shows the event. -/
def isShown (verbosity : Verbosity) : ScanEvent → Bool
  | step _ _ _ _ => verbosity.showsTransitions
  | reset _ _ state =>
      verbosity.showsTransitions || (verbosity.showsStates && state != 0)
  | accept _ _ | depthReached _ => true

/-- An offset in the first column of a trace. -/
def column (offset : Nat) : String :=
  Text.padLeft 5 (toString offset) ++ " "

/-- The columns that a byte fills. -/
def byteColumns (palette : Palette) (offset : Nat) (byte : UInt8) : String :=
  column offset ++ palette.symbol ++ Text.padRight 4 (Symbol.format byte) ++ palette.reset

/-- A state in a trace. -/
def stateText (palette : Palette) (state : UInt16) : String :=
  palette.state ++ toString state.toNat ++ palette.reset

/-- The line of an event. -/
def line (palette : Palette) : ScanEvent → String
  | step offset byte source target =>
      byteColumns palette offset byte ++ " " ++ stateText palette source ++ " " ++
        palette.dim ++ "->" ++ palette.reset ++ " " ++ stateText palette target
  | reset offset byte state =>
      byteColumns palette offset byte ++ " " ++ stateText palette state ++ " " ++
        palette.dim ++ "reset" ++ palette.reset
  | accept offset patternId =>
      column offset ++ palette.accept ++ "match pattern " ++ toString patternId.toNat ++
        palette.reset
  | depthReached depth =>
      column depth ++ palette.dim ++ "depth limit reached" ++ palette.reset

end ScanEvent

/-- The lines of a trace. -/
def scanTrace (verbosity : Verbosity) (palette : Palette) (events : List ScanEvent) :
    List String :=
  (events.filter (ScanEvent.isShown verbosity)).map (ScanEvent.line palette)

/-- The report of a match. -/
def ScanMatch.format (palette : Palette) (found : ScanMatch) : String :=
  palette.accept ++ "pattern " ++ toString found.patternId.toNat ++ palette.reset ++
    " at offset " ++ toString found.stop ++ " (state " ++ toString found.state.toNat ++ ")"

end ByteSignature
