import ByteSignature.Command.Arguments
import ByteSignature.Compile.Options
import ByteSignature.Palette

/-!
# Commands

The program has four commands: `compile` makes a table of a signature, `graph` shows an
automaton of a pattern, `scan` looks for the first match in a payload, and `check` tries
the patterns of a file.
-/

namespace ByteSignature

namespace Command

/-- When colours are used. -/
inductive ColorChoice where
  /-- Where output and messages both go to a terminal. -/
  | auto
  | always
  | never
  deriving DecidableEq, Repr

/-- Colours are used. -/
def ColorChoice.isOn (choice : ColorChoice) (onTerminal : Bool) : Bool :=
  match choice with
  | auto => onTerminal
  | always => true
  | never => false

/-- The form in which a table is written. -/
inductive TableFormat where
  | text
  | json
  | records
  | listing
  deriving DecidableEq, Repr

/-- The automaton that is shown. -/
inductive GraphStage where
  | nfa
  | dfa
  | minimal
  deriving DecidableEq, Repr

/-- Where a signature comes from. -/
structure SignatureChoice where
  pattern? : Option String
  literals : List String
  literalsFile? : Option String
  deriving DecidableEq, Repr

/-- How a signature is compiled. -/
structure CompileChoice where
  signature : SignatureChoice
  anchored : Bool
  minimize : Bool
  patternId : UInt8
  maxStates? : Option Nat
  deriving DecidableEq, Repr

/-- What `compile` is given. -/
structure CompileArguments where
  choice : CompileChoice
  format : TableFormat
  output? : Option String
  color : ColorChoice
  trace? : Option Verbosity
  deriving DecidableEq, Repr

/-- What `graph` is given. -/
structure GraphArguments where
  pattern : String
  stage : GraphStage
  anchored : Bool
  maxStates? : Option Nat
  output? : Option String
  deriving DecidableEq, Repr

/-- What `scan` is given. -/
structure ScanArguments where
  table? : Option String
  choice : CompileChoice
  inputText? : Option String
  inputFile? : Option String
  depth? : Option Nat
  color : ColorChoice
  trace? : Option Verbosity
  deriving DecidableEq, Repr

/-- What `check` is given. -/
structure CheckArguments where
  path : String
  maxStates? : Option Nat
  color : ColorChoice
  deriving DecidableEq, Repr

end Command

/-- A command with its arguments. -/
inductive Command where
  | compile (arguments : Command.CompileArguments)
  | graph (arguments : Command.GraphArguments)
  | scan (arguments : Command.ScanArguments)
  | check (arguments : Command.CheckArguments)
  deriving DecidableEq, Repr

namespace Command

/-! ## Reading -/

/-- The names of the commands. -/
inductive Name where
  | compile
  | graph
  | scan
  | check
  deriving DecidableEq, Repr

namespace Name

/-- The command with a name. -/
def ofString? : String → Option Name
  | "compile" => some compile
  | "graph" => some graph
  | "scan" => some scan
  | "check" => some check
  | _ => none

/-- What a command can be given. -/
def usage : Name → Usage
  | compile =>
      { switches := [.pattern, .literal, .literalsFile, .anchored, .noMinimize, .id,
          .maxStates, .format, .output, .color, .verbose, .help]
        takesFile := false
        groups := [[.pattern, .literal, .literalsFile]] }
  | graph =>
      { switches := [.pattern, .stage, .anchored, .maxStates, .output, .help]
        takesFile := false
        groups := [[.pattern]] }
  | scan =>
      { switches := [.table, .pattern, .literal, .literalsFile, .anchored, .noMinimize, .id,
          .maxStates, .input, .inputFile, .depth, .color, .verbose, .help]
        takesFile := false
        groups := [[.input, .inputFile], [.pattern, .literal, .literalsFile, .table]] }
  | check =>
      { switches := [.maxStates, .color, .help]
        takesFile := true
        groups := [[.file]] }

end Name

/-- The choice of colours in some arguments. -/
def colorOf (reading : Reading) : ColorChoice :=
  match reading.text? .color with
  | some "always" => .always
  | some "never" => .never
  | _ => .auto

/-- The form of the table in some arguments. -/
def formatOf (reading : Reading) : TableFormat :=
  match reading.text? .format with
  | some "json" => .json
  | some "kv" => .records
  | some "dump" => .listing
  | _ => .text

/-- The automaton to show in some arguments. -/
def stageOf (reading : Reading) : GraphStage :=
  match reading.text? .stage with
  | some "nfa" => .nfa
  | some "dfa" => .dfa
  | _ => .minimal

/-- The level of detail in some arguments.  Nothing is traced unless it is asked for. -/
def traceOf (reading : Reading) : Option Verbosity :=
  match (reading.texts .verbose).length with
  | 0 => none
  | count => some (.ofCount count)

/-- How a signature is compiled by some arguments. -/
def choiceOf (reading : Reading) : CompileChoice where
  signature := ⟨reading.text? .pattern, reading.texts .literal, reading.text? .literalsFile⟩
  anchored := reading.has .anchored
  minimize := !reading.has .noMinimize
  patternId := ((reading.number? .id).getD 1).toUInt8
  maxStates? := reading.number? .maxStates

/-- The command with a name and some arguments. -/
def ofReading (reading : Reading) : Name → Command
  | .compile =>
      .compile
        { choice := choiceOf reading
          format := formatOf reading
          output? := reading.text? .output
          color := colorOf reading
          trace? := traceOf reading }
  | .graph =>
      .graph
        { pattern := (reading.text? .pattern).getD ""
          stage := stageOf reading
          anchored := reading.has .anchored
          maxStates? := reading.number? .maxStates
          output? := reading.text? .output }
  | .scan =>
      .scan
        { table? := reading.text? .table
          choice := choiceOf reading
          inputText? := reading.text? .input
          inputFile? := reading.text? .inputFile
          depth? := reading.number? .depth
          color := colorOf reading
          trace? := traceOf reading }
  | .check =>
      .check
        { path := (reading.text? .file).getD ""
          maxStates? := reading.number? .maxStates
          color := colorOf reading }

/-- What asking for help on something leads to.  Help has no names of its own below
it. -/
def readHelp : List String → UsageFault
  | [] => .help
  | name :: names =>
      if (Name.ofString? name).isNone && name ≠ "help" then
        .unknownCommand name
      else
        match names with
        | [] => .help
        | other :: _ => .unknownCommand other

/-- What an argument in place of a command leads to. -/
def readOther (text : String) (later : List String) : UsageFault :=
  match Word.ofString text, later with
  | .separator, [] => .noArguments
  | .separator, name :: _ =>
      if (Name.ofString? name).isSome || name = "help" then
        .unknownArgument name
      else
        .unknownCommand name
  | .long "help" none, _ => .help
  | .long "help" (some _), _ => .unneededValue .help
  | .long name _, _ => .unknownArgument ("--" ++ name)
  | .letters ('h' :: _), _ => .help
  | .letters letters, _ => .unknownArgument ("-" ++ String.ofList (letters.take 1))
  | .plain, _ => .unknownCommand text

/-- The command that some arguments describe. -/
def read : List String → Except UsageFault Command
  | [] => .error .noArguments
  | text :: texts =>
      match Name.ofString? text with
      | some name => do
          let reading ← name.usage.read texts
          return ofReading reading name
      | none => .error (if text = "help" then readHelp texts else readOther text texts)

end Command

end ByteSignature
