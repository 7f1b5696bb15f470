import ByteSignature.Command.Action
import ByteSignature.Command.Basic
import ByteSignature.Compile.Trace
import ByteSignature.Table.Exchange
import ByteSignature.Table.Record
import ByteSignature.Table.Text
import ByteSignature.Text.Lines
import ByteSignature.Text.Utf8

/-!
# Signatures, payloads and tables

What a command works on is either given with it or read from a file.  A table is read in
the form that the extension of its file names.
-/

namespace ByteSignature.Command

/-- Why there is nothing to work on. -/
inductive InputError where
  | unreadable (path reason : String)
  | inputUnreadable (reason : String)
  | noLiterals (path : String)
  | missingSignature
  | missingPayload
  | textTable (path : String) (line : Table.MalformedLine)
  | recordTable (path : String) (fault : Table.RecordFault)
  | jsonTable (path reason : String)

/-- The report of an error with a table. -/
def invalidTable (path reason : String) : String :=
  "invalid table '" ++ path ++ "': " ++ reason

/-- The report of an error. -/
def InputError.message : InputError → String
  | unreadable path reason => "failed to read '" ++ path ++ "': " ++ reason
  | inputUnreadable reason => "failed to read stdin: " ++ reason
  | noLiterals path => "'" ++ path ++ "' holds no literals"
  | missingSignature =>
      "signature is required: use -p/--pattern, -l/--literal, or --literals-file"
  | missingPayload => "payload is required: use --input or --input-file"
  | textTable path line => invalidTable path line.message
  | recordTable path fault => invalidTable path fault.message
  | jsonTable path reason => invalidTable path reason

/-- Read the bytes that a path names. -/
def readPath (path : String) : Action (Except InputError (List UInt8)) := do
  match ← Action.readAll (.ofPath path), Place.ofPath path with
  | .ok bytes, _ => return .ok bytes
  | .error reason, .standardInput => return .error (.inputUnreadable reason)
  | .error reason, .file path => return .error (.unreadable path reason)

/-- The signature of a choice.  A pattern comes before literals, and literals before a
file of literals. -/
def SignatureChoice.load (choice : SignatureChoice) : Action (Except InputError Signature) :=
  match choice.pattern?, choice.literals, choice.literalsFile? with
  | some source, _, _ => return .ok (.pattern source)
  | none, literal :: literals, _ =>
      return .ok (.literals ((literal :: literals).map fun text => text.toUTF8.toList))
  | none, [], some path => do
      match ← readPath path with
      | .error error => return .error error
      | .ok bytes =>
          match Text.byteLines bytes with
          | [] => return .error (.noLiterals path)
          | texts => return .ok (.literals texts)
  | none, [], none => return .error .missingSignature

/-- The payload given as text or in a file. -/
def loadPayload (text? file? : Option String) : Action (Except InputError (List UInt8)) :=
  match text?, file? with
  | some text, _ => return .ok text.toUTF8.toList
  | none, some path => readPath path
  | none, none => return .error .missingPayload

/-- The extension of the last name on a path: what stands behind its last dot, unless
that is also its first character. -/
def extension? (path : String) : Option String :=
  match (Folder.steps path).getLast? with
  | none | some ".." => none
  | some name =>
      let reversed := name.toList.reverse
      match reversed.dropWhile (· ≠ '.') with
      | _ :: _ :: _ => some (String.ofList (reversed.takeWhile (· ≠ '.')).reverse)
      | _ => none

/-- The table of some bytes, in the form for an extension. -/
def parseTable (json : JsonLibrary) (path : String) (bytes : List UInt8) :
    Except InputError Table :=
  match extension? path with
  | some "json" =>
      (Table.ofJson json bytes).mapError fun error => .jsonTable path (error.message json)
  | some "kv" => (Table.decode bytes).mapError (.recordTable path)
  | _ => (Table.parseText (String.ofList (Text.lossyText bytes))).mapError (.textTable path)

/-- The table in a file. -/
def loadTable (json : JsonLibrary) (path : String) : Action (Except InputError Table) := do
  match ← readPath path with
  | .error error => return .error error
  | .ok bytes => return parseTable json path bytes

/-- The options of a choice. -/
def compileOptions (anchored minimize : Bool) (patternId : UInt8) (maxStates? : Option Nat) :
    CompileOptions :=
  let options := { CompileOptions.default with anchored, minimize, patternId }
  match maxStates? with
  | some limit => options.withDfaLimit limit
  | none => options

/-- The options of a choice. -/
def CompileChoice.options (choice : CompileChoice) : CompileOptions :=
  compileOptions choice.anchored choice.minimize choice.patternId choice.maxStates?

end ByteSignature.Command
