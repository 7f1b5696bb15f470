import ByteSignature.Command.Input
import ByteSignature.Command.Library
import ByteSignature.Compile.Report
import ByteSignature.Graphviz
import ByteSignature.Scan.Trace
import ByteSignature.Table.Listing

/-!
# Running commands

A command ends with an exit code, with bytes for the standard output and with messages
for the standard error.
-/

namespace ByteSignature.Command

/-- How a command ends. -/
structure Outcome where
  exitCode : Nat
  output : List UInt8
  messages : String

namespace Outcome

/-- The end of a command that fails with a report. -/
def reported (report : String) : Outcome :=
  ⟨1, [], report ++ "\n"⟩

/-- The end of a command that fails with an error. -/
def failed (message : String) : Outcome :=
  reported ("error: " ++ message)

end Outcome

/-- Lines with their breaks. -/
def linesText (lines : List String) : String :=
  String.join (lines.map (· ++ "\n"))

/-- Write what a command makes to a file or to the standard output. -/
def deliver (output? : Option String) (messages : String) (bytes : List UInt8) :
    Action Outcome :=
  match output? with
  | none => return ⟨0, bytes, messages⟩
  | some path => do
      match ← Action.writeAll path bytes with
      | .ok () => return ⟨0, [], messages⟩
      | .error reason => return ⟨1, [], messages ++ "error: " ++ reason ++ "\n"⟩

/-- The bytes of a table in a form. -/
def TableFormat.encode (json : JsonLibrary) (format : TableFormat) (palette : Palette)
    (table : Table) : Except json.Fault (List UInt8) :=
  match format with
  | text => .ok table.renderText.toUTF8.toList
  | .json => (table.toJsonLines json).map fun bytes => bytes ++ [0x0a]
  | records => .ok table.encode
  | listing => .ok (table.renderListing palette).toUTF8.toList

/-- Compile a signature. -/
def CompileArguments.run (libraries : Libraries) (arguments : CompileArguments)
    (onTerminal : Bool) : Action Outcome := do
  let color := arguments.color.isOn onTerminal
  let palette := Palette.choose color
  match ← arguments.choice.signature.load with
  | .error error => return .failed error.message
  | .ok signature =>
      let options := arguments.choice.options
      match signature.compileTable options with
      | .error error => return .reported (error.report libraries.renderer color signature)
      | .ok table =>
          let trace :=
            match arguments.trace? with
            | none => []
            | some verbosity => compileTrace options verbosity palette signature
          let messages := linesText trace
          match arguments.format.encode libraries.json palette table with
          | .error fault =>
              return ⟨1, [], messages ++ "error: " ++ libraries.json.message fault ++ "\n"⟩
          | .ok bytes => deliver arguments.output? messages bytes

/-- The graph of an automaton of a compiled pattern. -/
def GraphStage.render (stage : GraphStage) (compilation : Compilation) : String :=
  match stage with
  | nfa => Graphviz.ofNfa compilation.nfa
  | dfa => Graphviz.ofDfa compilation.dfa
  | minimal => Graphviz.ofDfa compilation.automaton

/-- Show an automaton of a pattern. -/
def GraphArguments.run (libraries : Libraries) (arguments : GraphArguments) :
    Action Outcome :=
  let minimize := arguments.stage = .minimal
  let options := compileOptions arguments.anchored minimize 1 arguments.maxStates?
  match ByteSignature.compile options arguments.pattern with
  | .error error =>
      return .reported (error.report libraries.renderer false (.pattern arguments.pattern))
  | .ok compilation =>
      deliver arguments.output? "" (arguments.stage.render compilation).toUTF8.toList

/-- The table that a scan uses, or how the command ends without one. -/
def ScanArguments.loadTable (libraries : Libraries) (arguments : ScanArguments)
    (color : Bool) : Action (Except Outcome Table) :=
  match arguments.table? with
  | some path => do
      let loaded ← Command.loadTable libraries.json path
      return loaded.mapError fun error => .failed error.message
  | none => do
      match ← arguments.choice.signature.load with
      | .error error => return .error (.failed error.message)
      | .ok signature =>
          return (signature.compileTable arguments.choice.options).mapError fun error =>
            .reported (error.report libraries.renderer color signature)

/-- Look for the first match in a payload. -/
def ScanArguments.run (libraries : Libraries) (arguments : ScanArguments)
    (onTerminal : Bool) : Action Outcome := do
  let color := arguments.color.isOn onTerminal
  let palette := Palette.choose color
  match ← arguments.loadTable libraries color with
  | .error outcome => return outcome
  | .ok table =>
      match ← loadPayload arguments.inputText? arguments.inputFile? with
      | .error error => return .failed error.message
      | .ok payload =>
          let dense := DenseTable.ofTable table
          let trace :=
            match arguments.trace? with
            | none => []
            | some verbosity =>
                scanTrace verbosity palette (dense.scanEvents arguments.depth? payload)
          return match dense.scan arguments.depth? payload with
            | some found => ⟨0, (found.format palette ++ "\n").toUTF8.toList, linesText trace⟩
            | none => ⟨1, "no match\n".toUTF8.toList, linesText trace⟩

/-- Try the patterns of a file.  Nothing is said when all of them compile. -/
def CheckArguments.run (libraries : Libraries) (arguments : CheckArguments)
    (onTerminal : Bool) : Action Outcome := do
  match ← readPath arguments.path with
  | .error error => return .failed error.message
  | .ok bytes =>
      let options :=
        match arguments.maxStates? with
        | some limit => CompileOptions.default.withDfaLimit limit
        | none => .default
      let color := arguments.color.isOn onTerminal
      let reports :=
        checkText libraries.renderer options color arguments.path (Text.lossyText bytes)
      return ⟨if reports.isEmpty then 0 else 1, [], linesText reports⟩

/-- Run a command.  `onTerminal` says that output and messages both go to a terminal. -/
def run (libraries : Libraries) (command : Command) (onTerminal : Bool) : Action Outcome :=
  match command with
  | .compile arguments => arguments.run libraries onTerminal
  | .graph arguments => arguments.run libraries
  | .scan arguments => arguments.run libraries onTerminal
  | .check arguments => arguments.run libraries onTerminal

end ByteSignature.Command
