namespace ProtoTypings

inductive CommandOption where
  | schema
  | config
  | output
  | clean
  | dryRun
  | verbose
  deriving DecidableEq, Repr

namespace CommandOption

def long : CommandOption → String
  | schema => "schema"
  | config => "config"
  | output => "output"
  | clean => "clean"
  | dryRun => "dry-run"
  | verbose => "verbose"

def short? : CommandOption → Option Char
  | schema => some 's'
  | config => some 'c'
  | output => some 'o'
  | verbose => some 'v'
  | _ => none

-- Whether the option stands alone, without a value.
def isFlag : CommandOption → Bool
  | clean | dryRun | verbose => true
  | _ => false

-- Whether the value of the option is the path of a file, which is never empty.
def isPath : CommandOption → Bool
  | schema | config => true
  | _ => false

end CommandOption

inductive UsageError where
  | unexpected (argument : String)
  | repeated (option : CommandOption)
  | valueMissing (option : CommandOption)
  | valueUnexpected (option : CommandOption)
  | optionMissing (option : CommandOption)
  | commandMissing
  deriving DecidableEq, Repr

def UsageError.message : UsageError → String
  | unexpected argument => "unexpected argument '" ++ argument ++ "'"
  | repeated option => "--" ++ option.long ++ " is given more than once"
  | valueMissing option => "--" ++ option.long ++ " needs a value"
  | valueUnexpected option => "--" ++ option.long ++ " takes no value"
  | optionMissing option => "--" ++ option.long ++ " is required"
  | commandMissing => "a command is required: generate or check"

-- Why no command is run.
inductive Halt where
  | help
  | version
  | misuse (error : UsageError)
  deriving DecidableEq, Repr

-- The options that were given, with their values. A flag has the empty value.
abbrev Given := List (CommandOption × String)

namespace Given

def add (g : Given) (option : CommandOption) (value : String) : Except Halt Given :=
  if (g.lookup option).isSome then .error (.misuse (.repeated option))
  else if option.isPath ∧ value = "" then .error (.misuse (.valueMissing option))
  else .ok (g ++ [(option, value)])

def has (g : Given) (option : CommandOption) : Bool :=
  (g.lookup option).isSome

end Given

-- An argument by its shape. A single dash is plain.
inductive Argument where
  | plain
  | terminator
  | long (name : String) (value : Option String)
  | short (letters : List Char)
  deriving DecidableEq, Repr

namespace Argument

def of (s : String) : Argument :=
  match s.toList with
  | ['-', '-'] => terminator
  | '-' :: '-' :: rest =>
    long (String.ofList (rest.takeWhile (· ≠ '='))) <|
      match rest.dropWhile (· ≠ '=') with
      | [] => none
      | _ :: value => some (String.ofList value)
  | '-' :: c :: rest => short (c :: rest)
  | _ => plain

-- The options of a command, and whether it tells the version.
structure Accepted where
  options : List CommandOption
  version : Bool := false

variable (accepted : Accepted)

-- An option by its long name; the option is awaited if its value is still to come.
def readLong (given : Given) (name : String) (value : Option String) :
    Except Halt (Given × Option CommandOption) :=
  match accepted.options.find? (·.long = name), value with
  | some option, none =>
    if option.isFlag then do return (← given.add option "", none) else return (given, some option)
  | some option, some value =>
    if option.isFlag then throw (.misuse (.valueUnexpected option))
    else do return (← given.add option value, none)
  | none, none =>
    if name = "help" then throw .help
    else if name = "version" ∧ accepted.version then throw .version
    else throw (.misuse (.unexpected ("--" ++ name)))
  | none, some _ => throw (.misuse (.unexpected ("--" ++ name)))

-- Short options behind one dash. The first that is no flag takes the rest as its value.
def readShort : Given → List Char → Except Halt (Given × Option CommandOption)
  | given, [] => .ok (given, none)
  | given, c :: rest =>
    match accepted.options.find? (·.short? = some c), rest with
    | some option, [] =>
      if option.isFlag then do return (← given.add option "", none) else return (given, some option)
    | some option, d :: more =>
      if option.isFlag then do readShort (← given.add option "") (d :: more)
      else do
        let value := if d = '=' then more else d :: more
        return (← given.add option (String.ofList value), none)
    | none, _ =>
      if c = 'h' then throw .help
      else if c = 'V' ∧ accepted.version then throw .version
      else throw (.misuse (.unexpected ("-" ++ String.singleton c)))

-- Reads options up to the first argument that is neither an option nor a value, and gives the rest.
-- Only values may stand after the terminator, and no command has any.
def readAll (awaited : Option CommandOption) (given : Given) :
    List String → Except Halt (Given × List String)
  | [] =>
    match awaited with
    | none => .ok (given, [])
    | some option => .error (.misuse (.valueMissing option))
  | s :: rest =>
    match awaited, of s with
    | none, plain => .ok (given, s :: rest)
    | some option, plain => do readAll none (← given.add option s) rest
    | some option, _ => .error (.misuse (.valueMissing option))
    | none, terminator =>
      match rest with
      | [] => .ok (given, [])
      | t :: _ => .error (.misuse (.unexpected t))
    | none, long name value => do
      let (given, awaited) ← readLong accepted given name value
      readAll awaited given rest
    | none, short letters => do
      let (given, awaited) ← readShort accepted given letters
      readAll awaited given rest

end Argument

inductive Command where
  | generate (schema : String) (config output : Option String) (clean dryRun : Bool)
  | check (config schema : Option String)
  deriving DecidableEq, Repr

structure Invocation where
  verbose : Bool
  command : Command
  deriving DecidableEq, Repr

namespace Invocation

-- The options of a command, which has no other arguments.
def options (accepted : List CommandOption) (args : List String) : Except Halt Given := do
  match ← Argument.readAll { options := .verbose :: accepted } none [] args with
  | (given, []) => return given
  | (_, s :: _) => throw (.misuse (.unexpected s))

def generate (args : List String) : Except Halt (Given × Command) := do
  let given ← options [.schema, .config, .output, .clean, .dryRun] args
  match given.lookup .schema with
  | none => throw (.misuse (.optionMissing .schema))
  | some schema =>
    return (given, .generate schema (given.lookup .config) (given.lookup .output)
      (given.has .clean) (given.has .dryRun))

def check (args : List String) : Except Halt (Given × Command) := do
  let given ← options [.config, .schema] args
  return (given, .check (given.lookup .config) (given.lookup .schema))

def parse (args : List String) : Except Halt Invocation := do
  let (outer, rest) ← Argument.readAll { options := [.verbose], version := true } none [] args
  let (inner, command) ← match rest with
    | [] => throw (.misuse .commandMissing)
    | "generate" :: rest => generate rest
    | "check" :: rest => check rest
    | ["help"] | ["help", "generate"] | ["help", "check"] | ["help", "help"] => throw .help
    | s :: _ => throw (.misuse (.unexpected s))
  return { verbose := outer.has .verbose || inner.has .verbose, command }

end Invocation

end ProtoTypings
