import ByteSignature.Compile.Options
import ByteSignature.Compile.Source
import ByteSignature.Dfa.Minimal
import ByteSignature.Table.OfDfa

/-!
# Compiling patterns

A pattern goes through four stages: the nondeterministic automaton, the deterministic
one, the minimal one where it is asked for, and the table.  Where whole inputs are to
be matched, the end marker is appended to the pattern, which cannot contain it.
-/

namespace ByteSignature

open Nfa

/-- The nondeterministic automaton of a pattern text. -/
def nfaOfSource (options : CompileOptions) (source : String) : Except CompileError Nfa :=
  let build : EStateM CompileError Builder Fragment := do
    let fragment ← buildSource options.nestingLimit source
    if options.anchored then
      let marker ← (Build.symbol endMarker).adaptExcept CompileError.ofBuildFault
      (Build.concat fragment marker).adaptExcept CompileError.ofBuildFault
    else
      return fragment
  match build.run (.empty options.nfaLimit) with
  | .error error _ => .error error
  | .ok fragment builder =>
      match builder.finish? fragment with
      | none => .error (.unknownState fragment.start)
      | some nfa => .ok nfa

/-- Every stage of a compiled pattern but the table. -/
structure Compilation where
  nfa : Nfa
  dfa : Dfa
  minimal? : Option Dfa
  anchored : Bool
  patternId : UInt8

/-- Compile a pattern text. -/
def compile (options : CompileOptions) (source : String) : Except CompileError Compilation :=
  match nfaOfSource options source with
  | .error error => .error error
  | .ok nfa =>
      match Dfa.ofNfa nfa options.dfaLimit with
      | .error excess => .error (.limit excess)
      | .ok dfa =>
          .ok {
            nfa, dfa
            minimal? := if options.minimize then some dfa.minimize else none
            anchored := options.anchored
            patternId := options.patternId }

/-- The table of an automaton, whose accepting entries carry a pattern id. -/
def Dfa.emit (dfa : Dfa) (patternId : UInt8) : Except CompileError Table :=
  if patternId = 0 then
    .error .patternIdZero
  else if tableStateSpace < dfa.order.length then
    .error (.limit ⟨.tableStates, tableStateSpace, dfa.order.length⟩)
  else
    match Table.ofEntries (dfa.tableEntries patternId) with
    | .error second => .error (.duplicate second)
    | .ok table => .ok table

namespace Compilation

/-- The last automaton, which is minimal where that was asked for. -/
def automaton (compilation : Compilation) : Dfa :=
  compilation.minimal?.getD compilation.dfa

/-- The last automaton accepts some bytes, followed by the end marker where whole
inputs are matched. -/
def accepts (compilation : Compilation) (input : List UInt8) : Bool :=
  let dfa := compilation.automaton
  if compilation.anchored then
    match (dfa.walk input).bind fun id => dfa.target? id endMarker with
    | none => false
    | some id => dfa.isAccepting id
  else
    dfa.accepts input

/-- The table of the last automaton. -/
def table (compilation : Compilation) : Except CompileError Table :=
  compilation.automaton.emit compilation.patternId

end Compilation

/-- The table of a pattern text. -/
def compileTable (options : CompileOptions) (source : String) : Except CompileError Table :=
  match compile options source with
  | .error error => .error error
  | .ok compilation => compilation.table

end ByteSignature
