/-!
# Files and standard input

A command is a value that asks for files one after the other, and its result depends on
the answers.  It can be performed on a folder of files, where nothing but the folder
changes, or by a program.
-/

namespace ByteSignature.Command

/-- Where bytes are read from. -/
inductive Place where
  | standardInput
  | file (path : String)
  deriving DecidableEq, Repr

/-- The place that a path names: `-` is the standard input. -/
def Place.ofPath (path : String) : Place :=
  if path = "-" then standardInput else file path

/-- What is asked for, and how to go on with the answer.  A failure is answered by its
reason. -/
inductive Action (α : Type) where
  | finish (result : α)
  | read (place : Place) (next : Except String (List UInt8) → Action α)
  | write (path : String) (bytes : List UInt8) (next : Except String Unit → Action α)

namespace Action

variable {α β : Type}

/-- Go on with the result of an action. -/
def bind : Action α → (α → Action β) → Action β
  | finish result, next => next result
  | read place answer, next => read place fun bytes => (answer bytes).bind next
  | write path bytes answer, next => write path bytes fun result => (answer result).bind next

instance : Monad Action where
  pure := finish
  bind := bind

/-- Ask for the bytes of a place. -/
def readAll (place : Place) : Action (Except String (List UInt8)) :=
  read place finish

/-- Ask for bytes to be written to a file. -/
def writeAll (path : String) (bytes : List UInt8) : Action (Except String Unit) :=
  write path bytes finish

end Action

/-! ## Folders -/

/-- Files by name and what is left of the standard input. -/
structure Folder where
  files : List (String × List UInt8)
  input : List UInt8

namespace Folder

/-- Why a file cannot be opened that is not there. -/
def noSuchFile : String :=
  "No such file or directory (os error 2)"

/-- The names that lead along a path. -/
def steps (path : String) : List String :=
  (path.toList.splitOn '/').map String.ofList |>.filter fun step => step ≠ "" ∧ step ≠ "."

/-- A path from the folder leads to a file with this name. -/
def leadsTo (path name : String) : Bool :=
  !path.startsWith "/" && steps path == steps name

/-- The bytes of a file. -/
def find? (folder : Folder) (path : String) : Option (List UInt8) :=
  (folder.files.find? fun file => leadsTo path file.1).map Prod.snd

/-- There is a folder for a file with this path. -/
def hasParent (folder : Folder) (path : String) : Bool :=
  let parent := (steps path).dropLast
  !path.startsWith "/" &&
    (parent.isEmpty || folder.files.any fun file =>
      parent.isPrefixOf (steps file.1) && parent.length < (steps file.1).length)

/-- The bytes of a place, and the folder without input that has been read. -/
def read (folder : Folder) : Place → Except String (List UInt8) × Folder
  | .standardInput => (.ok folder.input, { folder with input := [] })
  | .file path =>
      match folder.find? path with
      | some bytes => (.ok bytes, folder)
      | none => (.error noSuchFile, folder)

/-- The folder after bytes have been written to a file. -/
def write (folder : Folder) (path : String) (bytes : List UInt8) :
    Except String Unit × Folder :=
  if folder.hasParent path then
    let others := folder.files.filter fun file => !leadsTo path file.1
    (.ok (), { folder with files := (path, bytes) :: others })
  else
    (.error noSuchFile, folder)

end Folder

/-- Perform an action on a folder. -/
def Action.perform {α : Type} : Action α → Folder → α × Folder
  | .finish result, folder => (result, folder)
  | .read place next, folder =>
      let (answer, folder) := folder.read place
      (next answer).perform folder
  | .write path bytes next, folder =>
      let (answer, folder) := folder.write path bytes
      (next answer).perform folder

end ByteSignature.Command
