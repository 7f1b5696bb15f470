import ByteSignature.Command.Run

/-!
# The program

Arguments are read, the command is performed on the files of the machine, and what came
of it is written.
-/

namespace ByteSignature

open Command

/-- The reason of a failure, with the number of the system's error. -/
def failureReason : IO.Error → String
  | .noFileOrDirectory _ code details => details ++ " (os error " ++ toString code ++ ")"
  | .permissionDenied _ code details => details ++ " (os error " ++ toString code ++ ")"
  | .inappropriateType _ code details => details ++ " (os error " ++ toString code ++ ")"
  | other => toString other

/-- All bytes that are left of a stream. -/
partial def readStream (stream : IO.FS.Stream) (found : ByteArray) : IO ByteArray := do
  let more ← stream.read 65536
  if more.isEmpty then
    return found
  else
    readStream stream (found ++ more)

/-- The bytes of a place, or why they cannot be read. -/
def readPlace (place : Place) : IO (Except String (List UInt8)) := do
  try
    match place with
    | .standardInput => return .ok (← readStream (← IO.getStdin) .empty).toList
    | .file path => return .ok (← IO.FS.readBinFile path).toList
  catch error =>
    return .error (failureReason error)

/-- Write bytes to a file. -/
def writeFile (path : String) (bytes : List UInt8) : IO (Except String Unit) := do
  try
    IO.FS.writeBinFile path ⟨bytes.toArray⟩
    return .ok ()
  catch error =>
    return .error (failureReason error)

/-- Perform an action on the files of the machine. -/
def perform {α : Type} : Action α → IO α
  | .finish result => return result
  | .read place next => do perform (next (← readPlace place))
  | .write path bytes next => do perform (next (← writeFile path bytes))

/-- How the program is used. -/
def usageText : String :=
  "Compile byte signatures into scanner automaton tables\n\n" ++
    "Usage:\n" ++
    "  compile (-p <REGEX> | -l <TEXT>... | --literals-file <FILE>) [options]\n" ++
    "  graph -p <REGEX> [--stage nfa|dfa|min] [options]\n" ++
    "  scan (-p <REGEX> | -l <TEXT>... | --literals-file <FILE> | --table <FILE>)\n" ++
    "       (--input <TEXT> | --input-file <FILE>) [options]\n" ++
    "  check <FILE> [options]\n"

end ByteSignature

/-- Run the command that the arguments describe. -/
def main (arguments : List String) : IO UInt32 := do
  match ByteSignature.Command.read arguments with
  | .error .help =>
      IO.print ByteSignature.usageText
      return 0
  | .error fault =>
      IO.eprint ("error: " ++ fault.message ++ "\n\n" ++ ByteSignature.usageText)
      return fault.exitCode.toUInt32
  | .ok command =>
      let output ← IO.getStdout
      let onTerminal := (← output.isTty) && (← (← IO.getStderr).isTty)
      let outcome ← ByteSignature.perform (command.run .builtIn onTerminal)
      IO.eprint outcome.messages
      output.write ⟨outcome.output.toArray⟩
      output.flush
      return outcome.exitCode.toUInt32
