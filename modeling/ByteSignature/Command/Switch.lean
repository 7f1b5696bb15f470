import ByteSignature.Text.Decimal

/-!
# Switches

A switch is what can be given to a command: an option with a long or a short name, or
the file of a command that takes one.  Each has a rule for how often it may be given and
for the value that it takes.
-/

namespace ByteSignature.Command

/-- What can be given to a command. -/
inductive Switch where
  | pattern
  | literal
  | literalsFile
  | anchored
  | noMinimize
  | id
  | maxStates
  | format
  | stage
  | table
  | input
  | inputFile
  | depth
  | output
  | color
  | verbose
  | help
  /-- The file that stands without a name. -/
  | file
  deriving DecidableEq, Repr

/-- What a value must look like. -/
inductive ValueRule where
  | text
  /-- A path is not empty. -/
  | path
  | choice (names : List String)
  | number (least greatest : Nat)
  deriving DecidableEq, Repr

/-- What comes with a switch. -/
inductive Arity where
  /-- No value, and once at most. -/
  | flag
  /-- No value, as often as one likes. -/
  | counted
  /-- A value, and once at most. -/
  | single (rule : ValueRule)
  /-- A value each time. -/
  | many (rule : ValueRule)
  deriving DecidableEq, Repr

namespace Arity

/-- A value comes with the switch. -/
def takesValue : Arity → Bool
  | flag | counted => false
  | single _ | many _ => true

/-- The switch may be given again. -/
def isRepeatable : Arity → Bool
  | flag | single _ => false
  | counted | many _ => true

/-- The rule for values. -/
def rule : Arity → ValueRule
  | flag | counted => .text
  | single rule | many rule => rule

end Arity

namespace Switch

/-- The long name of a switch, without its hyphens. -/
def long? : Switch → Option String
  | pattern => some "pattern"
  | literal => some "literal"
  | literalsFile => some "literals-file"
  | anchored => some "anchored"
  | noMinimize => some "no-minimize"
  | id => some "id"
  | maxStates => some "max-states"
  | format => some "format"
  | stage => some "stage"
  | table => some "table"
  | input => some "input"
  | inputFile => some "input-file"
  | depth => some "depth"
  | output => some "output"
  | color => some "color"
  | help => some "help"
  | verbose | file => none

/-- The letter of a switch. -/
def short? : Switch → Option Char
  | pattern => some 'p'
  | literal => some 'l'
  | output => some 'o'
  | verbose => some 'v'
  | help => some 'h'
  | _ => none

/-- What comes with a switch. -/
def arity : Switch → Arity
  | pattern | input => .single .text
  | literal => .many .text
  | literalsFile | table | inputFile | output | file => .single .path
  | anchored | noMinimize => .flag
  | id => .single (.number 1 255)
  | maxStates | depth => .single (.number 0 Text.greatestWord)
  | format => .single (.choice ["text", "json", "kv", "dump"])
  | stage => .single (.choice ["nfa", "dfa", "min"])
  | color => .single (.choice ["auto", "always", "never"])
  | verbose | help => .counted

/-- How a switch is called in messages. -/
def title (name : Switch) : String :=
  match name.long?, name.short? with
  | some long, _ => "--" ++ long
  | none, some short => "-" ++ String.singleton short
  | none, none => "<FILE>"

end Switch

/-- Why arguments are not understood, or not to be acted on. -/
inductive UsageFault where
  /-- Help is asked for. -/
  | help
  /-- There are no arguments. -/
  | noArguments
  | unknownCommand (name : String)
  | unknownArgument (text : String)
  /-- A switch is given twice, or together with one that it excludes. -/
  | conflict (name : Switch)
  /-- A value is missing, not among those allowed, or an empty path. -/
  | invalidValue (name : Switch)
  /-- A value is no number, or out of range. -/
  | invalidNumber (name : Switch)
  /-- A switch without value has one. -/
  | unneededValue (name : Switch)
  /-- One of these is needed. -/
  | missing (names : List Switch)
  deriving DecidableEq, Repr

namespace UsageFault

/-- The exit code: asking for help is no failure. -/
def exitCode : UsageFault → Nat
  | help => 0
  | _ => 2

/-- What is wrong, in a line. -/
def message : UsageFault → String
  | help | noArguments => "no command"
  | unknownCommand name => "unknown command '" ++ name ++ "'"
  | unknownArgument text => "unexpected argument '" ++ text ++ "'"
  | conflict name => name.title ++ " cannot be used here again or together with the others"
  | invalidValue name => "invalid value for " ++ name.title
  | invalidNumber name => "invalid number for " ++ name.title
  | unneededValue name => name.title ++ " takes no value"
  | missing names => "one of these is needed: " ++ ", ".intercalate (names.map Switch.title)

end UsageFault

/-- Check a value. -/
def ValueRule.check (rule : ValueRule) (name : Switch) (text : String) :
    Except UsageFault Unit :=
  match rule with
  | .text => .ok ()
  | .path => if text.isEmpty then .error (.invalidValue name) else .ok ()
  | .choice names => if names.contains text then .ok () else .error (.invalidValue name)
  | .number least greatest =>
      match Text.boundedDecimal? greatest text.toList with
      | some value => if least ≤ value then .ok () else .error (.invalidNumber name)
      | none => .error (.invalidNumber name)

end ByteSignature.Command
