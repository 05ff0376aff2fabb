import RemoteUpdate.CommandLine.Request

/-!
# Reading the command line

Arguments are read from left to right. An option or a positional argument stays *pending* until the next
one comes or the arguments end; only then is its value checked. So a mistake in the words themselves, such
as an option that does not exist, is found before a bad value in front of it, while a bad value is found
before a request for help behind it.

The top level has options and ends at the name of a command, which reads the rest. What the command
finds wrong comes before what is left to check at the top.
-/

namespace RemoteUpdate.CommandLine

/-- Why the arguments do not make a request. -/
inductive UsageError where
  | displayHelp
  | displayVersion
  /-- There are no arguments at all, so help is due. -/
  | helpForNothing
  | unknownArgument
  | invalidSubcommand
  /-- A value is missing or empty. -/
  | invalidValue
  /-- A value is not of its kind. -/
  | valueValidation
  | missingRequiredArgument
  | missingSubcommand
  /-- An option is given twice. -/
  | argumentConflict
  /-- A flag is given a value. -/
  | tooManyValues
deriving DecidableEq, Repr

/-- The word for the kind of mistake. -/
def UsageError.kind : UsageError → String
  | displayHelp => "DisplayHelp"
  | displayVersion => "DisplayVersion"
  | helpForNothing => "DisplayHelpOnMissingArgumentOrSubcommand"
  | unknownArgument => "UnknownArgument"
  | invalidSubcommand => "InvalidSubcommand"
  | invalidValue => "InvalidValue"
  | valueValidation => "ValueValidation"
  | missingRequiredArgument => "MissingRequiredArgument"
  | missingSubcommand => "MissingSubcommand"
  | argumentConflict => "ArgumentConflict"
  | tooManyValues => "TooManyValues"

/-- The number a program ends with: asking for help or for the version is no mistake. -/
def UsageError.exitCode : UsageError → UInt32
  | displayHelp | displayVersion => 0
  | _ => 2

/-- What may be read at one level. -/
structure Grammar where
  options : List OptionSpec
  positionals : List ValueKind := []
  /-- The names that end the level. -/
  subcommands : List String := []
  /-- There is a flag that asks for the version. -/
  hasVersion : Bool := false

/-- An argument whose value has not been checked. -/
inductive Pending where
  | option (spec : OptionSpec) (value : Option String)
  | positional (kind : ValueKind) (value : String)

/-- What has been read at one level. -/
structure Progress where
  /-- Options by long name. -/
  options : List (String × Value) := []
  positionals : List Value := []
  pending : Option Pending := none

/-- The outcome of reading something. -/
abbrev Usage (α : Type) := Except UsageError α

namespace ValueKind

/-- The value that a text stands for. -/
def read (k : ValueKind) (s : String) : Usage Value :=
  let orInvalid (v : Option Value) : Usage Value := v.elim (.error .valueValidation) .ok
  match k with
  | .text => .ok (.text s)
  | .path => if s.isEmpty then .error .invalidValue else .ok (.text s)
  | .level => orInvalid ((LogLevel.ofLabel? s).map .level)
  | .decimal bound => orInvalid ((Text.decimal? bound s).map .number)
  | .number bound => orInvalid ((Text.number? bound s).map .number)

end ValueKind

namespace Progress

/-- The option that waits for its value. -/
def awaiting (p : Progress) : Option OptionSpec :=
  match p.pending with
  | some (.option spec none) => some spec
  | _ => none

/-- How many positional arguments there have been. -/
def count (p : Progress) : Nat :=
  match p.pending with
  | some (.positional _ _) => p.positionals.length + 1
  | _ => p.positionals.length

/-- Checks the pending argument. -/
def resolve (p : Progress) : Usage Progress :=
  match p.pending with
  | none => return p
  | some (.option _ none) => throw .invalidValue
  | some (.option spec (some s)) => do
    if (p.options.lookup spec.long).isSome then throw .argumentConflict
    return { p with options := p.options ++ [(spec.long, ← spec.kind.read s)], pending := none }
  | some (.positional kind s) => do
    return { p with positionals := p.positionals ++ [← kind.read s], pending := none }

/-- Checks the pending argument and makes another one pending. -/
def next (p : Progress) (x : Pending) : Usage Progress := do
  return { ← p.resolve with pending := some x }

/-- Takes an option, with its value if that is attached. -/
def takeOption (p : Progress) (spec : OptionSpec) (attached : Option String) : Usage Progress := do
  let p ← p.next (.option spec attached)
  if attached.isSome then p.resolve else return p

/-- Takes a flag that ends the reading, unless the pending argument is wrong. -/
def takeFlag (p : Progress) (e : UsageError) : Usage Progress := do
  discard p.resolve
  throw e

/-- Takes an argument that starts with two dashes, without them. -/
def takeLong (p : Progress) (g : Grammar) (word : List Char) : Usage Progress :=
  let name := String.ofList (word.takeWhile (· != '='))
  let attached := match word.dropWhile (· != '=') with
    | _ :: value => some (String.ofList value)
    | [] => none
  let flag (e : UsageError) : Usage Progress :=
    if attached.isSome then throw .tooManyValues else p.takeFlag e
  match g.options.find? (·.long == name) with
  | some spec => p.takeOption spec attached
  | none =>
    if name = "help" then flag .displayHelp
    else if name = "version" ∧ g.hasVersion then flag .displayVersion
    else throw .unknownArgument

/-- Takes an argument that starts with one dash, without it. -/
def takeShort (p : Progress) (g : Grammar) : List Char → Usage Progress
  | [] => return p
  | c :: rest =>
    match g.options.find? (·.short == some c) with
    | some spec => p.takeOption spec <| match rest with
      | [] => none
      | '=' :: value => some (String.ofList value)
      | value => some (String.ofList value)
    | none =>
      if c = 'h' then p.takeFlag .displayHelp
      else if c = 'V' ∧ g.hasVersion then p.takeFlag .displayVersion
      else throw .unknownArgument

/-- Takes a positional argument. -/
def takePositional (p : Progress) (g : Grammar) (trailing : Bool) (word : String) : Usage Progress :=
  match g.positionals[p.count]? with
  | some kind => p.next (.positional kind word)
  | none =>
    if g.subcommands.isEmpty ∨ (trailing ∧ word ∈ g.subcommands) then throw .unknownArgument
    else throw .invalidSubcommand

end Progress

/-- Reads one level: what was found, and the name that ended the level with the arguments after it. With
`trailing` a double dash has been seen, and all that follows is positional. -/
def readLevel (g : Grammar) (trailing : Bool) (p : Progress) :
    List String → Usage (Progress × Option (String × List String))
  | [] => return (p, none)
  | word :: rest => do
    if trailing then
      readLevel g true (← p.takePositional g true word) rest
    else if p.awaiting.isNone ∧ word ∈ g.subcommands then
      return (p, some (word, rest))
    else
      match word.toList with
      | ['-', '-'] => readLevel g true p rest
      | '-' :: '-' :: long => readLevel g false (← p.takeLong g long) rest
      | '-' :: c :: short => readLevel g false (← p.takeShort g (c :: short)) rest
      | _ =>
        match p.awaiting with
        | some spec => readLevel g false { p with pending := some (.option spec (some word)) } rest
        | none => readLevel g false (← p.takePositional g false word) rest

/-- Reads the arguments of a command. -/
def Signature.read (s : Signature) (arguments : List String) : Usage Request := do
  let g : Grammar := { options := s.options, positionals := s.positionals }
  let (p, _) ← readLevel g false {} arguments
  let p ← p.resolve
  match s.build p.options p.positionals with
  | some r => return r
  | none => throw .missingRequiredArgument

/-! ### The top level -/

/-- A command line that makes sense. -/
structure Invocation where
  /-- The file of the flash device. -/
  flash : String
  /-- Bytes of the flash device. -/
  flashSize : Nat := 0x4000000
  logLevel : LogLevel := .info
  request : Request
deriving DecidableEq, Repr

/-- What may stand in front of the command. -/
def topLevel : Grammar where
  options := [
    { long := "flash", short := some 'f', kind := .path },
    { long := "flash-size", kind := Signature.sizeKind },
    { long := "log-level", kind := .level }]
  subcommands := "help" :: Signature.all.map Signature.name
  hasVersion := true

/-- What asking for help on some names comes to. -/
def helpAnswer (names : List String) : UsageError :=
  match names with
  | [] => .displayHelp
  | [name] => if name ∈ topLevel.subcommands then .displayHelp else .invalidSubcommand
  | _ => .invalidSubcommand

/-- Reads the command that a name stands for. -/
def readCommand (name : String) (arguments : List String) : Usage Request :=
  match Signature.find? name with
  | some s => s.read arguments
  | none => throw (helpAnswer arguments)

/-- Reads a command line, without the name of the program. -/
def read (arguments : List String) : Usage Invocation := do
  let (p, command) ← readLevel topLevel false {} arguments
  let request? ← command.mapM fun c => readCommand c.1 c.2
  let p ← p.resolve
  match request? with
  | none => throw (if p.options.isEmpty then .helpForNothing else .missingSubcommand)
  | some request =>
    match p.options.lookup "flash" with
    | some (.text flash) =>
      let i : Invocation := { flash, request }
      let i := match p.options.lookup "flash-size" with
        | some (.number flashSize) => { i with flashSize }
        | _ => i
      return match p.options.lookup "log-level" with
        | some (.level logLevel) => { i with logLevel }
        | _ => i
    | _ => throw .missingRequiredArgument

end RemoteUpdate.CommandLine
