import ByteSignature.Command.Switch

/-!
# Reading arguments

Arguments are read from left to right.  A value may stand in an argument of its own or
in the argument of its switch, and letters without values may share a hyphen.  Behind
`--` everything is a file.

A value that stands on its own is checked when the next switch or file is read, so an
argument that is not known is reported first.
-/

namespace ByteSignature.Command

/-- What a command can be given. -/
structure Usage where
  switches : List Switch
  /-- A file may stand without a name. -/
  takesFile : Bool
  /-- Of each group exactly one must be given. -/
  groups : List (List Switch)
  deriving DecidableEq, Repr

namespace Usage

/-- The switch with a long name. -/
def long? (usage : Usage) (name : String) : Option Switch :=
  usage.switches.find? fun switch => switch.long? = some name

/-- The switch with a letter. -/
def short? (usage : Usage) (letter : Char) : Option Switch :=
  usage.switches.find? fun switch => switch.short? = some letter

end Usage

/-- A switch and its value, which is empty when it takes none. -/
structure Given where
  switch : Switch
  text : String
  deriving DecidableEq, Repr

/-- A switch whose value has not been checked or has not even been read. -/
structure Pending where
  switch : Switch
  text? : Option String
  deriving DecidableEq, Repr

/-- What has been read. -/
structure Reading where
  given : List Given
  pending? : Option Pending
  deriving DecidableEq, Repr

namespace Reading

/-- Nothing has been read. -/
def empty : Reading :=
  ⟨[], none⟩

/-- The switch is given. -/
def has (reading : Reading) (switch : Switch) : Bool :=
  reading.given.any fun given => given.switch = switch

/-- The values of a switch, in order. -/
def texts (reading : Reading) (switch : Switch) : List String :=
  (reading.given.filter fun given => given.switch = switch).map Given.text

/-- The value of a switch. -/
def text? (reading : Reading) (switch : Switch) : Option String :=
  (reading.texts switch).head?

/-- The number that a switch is given. -/
def number? (reading : Reading) (switch : Switch) : Option Nat :=
  (reading.text? switch).bind fun text =>
    Text.boundedDecimal? Text.greatestWord text.toList

/-- A file that stands without a name has been read. -/
def hasFile (reading : Reading) : Bool :=
  reading.has .file || (reading.pending?.map Pending.switch) = some .file

/-- Add a switch and its value. -/
def accept (reading : Reading) (switch : Switch) (text : String) :
    Except UsageFault Reading :=
  if switch = .help then
    .error .help
  else if reading.has switch && !switch.arity.isRepeatable then
    .error (.conflict switch)
  else do
    switch.arity.rule.check switch text
    return ⟨reading.given ++ [⟨switch, text⟩], none⟩

/-- Check what is pending. -/
def settle (reading : Reading) : Except UsageFault Reading :=
  match reading.pending? with
  | none => .ok reading
  | some ⟨switch, none⟩ => .error (.invalidValue switch)
  | some ⟨switch, some text⟩ => reading.accept switch text

/-- Read a switch together with the value in its argument, if there is one. -/
def take (reading : Reading) (switch : Switch) (text? : Option String) :
    Except UsageFault Reading := do
  let settled ← reading.settle
  match text? with
  | some text => settled.accept switch text
  | none =>
      if switch.arity.takesValue then
        return ⟨settled.given, some ⟨switch, none⟩⟩
      else
        settled.accept switch ""

/-- Read a file that stands without a name. -/
def takeFile (reading : Reading) (usage : Usage) (path : String) :
    Except UsageFault Reading :=
  if usage.takesFile && !reading.hasFile then do
    let settled ← reading.settle
    return ⟨settled.given, some ⟨.file, some path⟩⟩
  else
    .error (.unknownArgument path)

/-- Read the letters behind a hyphen.  What follows a letter with a value is its value,
and an equals sign in front of it does not count. -/
def takeLetters (usage : Usage) : Reading → List Char → Except UsageFault Reading
  | reading, [] => .ok reading
  | reading, letter :: rest =>
      match usage.short? letter with
      | none => .error (.unknownArgument ("-" ++ String.singleton letter))
      | some switch =>
          if switch.arity.takesValue then
            match rest with
            | [] => reading.take switch none
            | '=' :: text => reading.take switch (some (String.ofList text))
            | text => reading.take switch (some (String.ofList text))
          else do
            takeLetters usage (← reading.take switch none) rest

end Reading

/-- The forms of an argument. -/
inductive Word where
  /-- Two hyphens and nothing else. -/
  | separator
  /-- A long name behind two hyphens, and the value behind an equals sign. -/
  | long (name : String) (text? : Option String)
  /-- Letters behind a hyphen. -/
  | letters (letters : List Char)
  | plain
  deriving DecidableEq, Repr

/-- The form of an argument.  A single hyphen is plain. -/
def Word.ofString (text : String) : Word :=
  match text.toList with
  | ['-', '-'] => separator
  | '-' :: '-' :: rest =>
      let name := String.ofList (rest.takeWhile (· ≠ '='))
      match rest.dropWhile (· ≠ '=') with
      | [] => long name none
      | _ :: value => long name (some (String.ofList value))
  | '-' :: letter :: rest => letters (letter :: rest)
  | _ => plain

namespace Reading

/-- Read a long name. -/
def takeLong (reading : Reading) (usage : Usage) (name : String) (text? : Option String) :
    Except UsageFault Reading :=
  match usage.long? name with
  | none => .error (.unknownArgument ("--" ++ name))
  | some switch =>
      if text?.isSome && !switch.arity.takesValue then
        .error (.unneededValue switch)
      else
        reading.take switch text?

/-- Read an argument that is no switch: a value, if one is waited for, or a file. -/
def takePlain (reading : Reading) (usage : Usage) (text : String) :
    Except UsageFault Reading :=
  match reading.pending? with
  | some ⟨switch, none⟩ => .ok ⟨reading.given, some ⟨switch, some text⟩⟩
  | _ => reading.takeFile usage text

/-- Read arguments behind `--`. -/
def takeFiles (usage : Usage) : Reading → List String → Except UsageFault Reading
  | reading, [] => reading.settle
  | reading, path :: paths => do
      takeFiles usage (← reading.takeFile usage path) paths

/-- Read arguments. -/
def takeAll (usage : Usage) : Reading → List String → Except UsageFault Reading
  | reading, [] => reading.settle
  | reading, text :: texts =>
      match Word.ofString text with
      | .separator => takeFiles usage reading texts
      | .long name text? => do takeAll usage (← reading.takeLong usage name text?) texts
      | .letters letters => do takeAll usage (← takeLetters usage reading letters) texts
      | .plain => do takeAll usage (← reading.takePlain usage text) texts

/-- No group has two of its switches given. -/
def checkExclusive (reading : Reading) : List (List Switch) → Except UsageFault Unit
  | [] => .ok ()
  | group :: groups =>
      match group.filter reading.has with
      | _ :: switch :: _ => .error (.conflict switch)
      | _ => reading.checkExclusive groups

/-- Each group has one of its switches given. -/
def checkPresent (reading : Reading) : List (List Switch) → Except UsageFault Unit
  | [] => .ok ()
  | group :: groups =>
      if group.any reading.has then
        reading.checkPresent groups
      else
        .error (.missing group)

end Reading

/-- What some arguments give to a command. -/
def Usage.read (usage : Usage) (arguments : List String) : Except UsageFault Reading := do
  let reading ← Reading.takeAll usage .empty arguments
  reading.checkExclusive usage.groups
  reading.checkPresent usage.groups
  return reading

end ByteSignature.Command
