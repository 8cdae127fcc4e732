import ProtoTypings.Command.Arguments
import ProtoTypings.Command.Check
import ProtoTypings.Command.Generate

namespace ProtoTypings

variable {m : Type → Type} [Monad m] [Host m]

namespace Command

-- The settings from a given file, or from the nearest one above the working directory, and the path
-- of that file.
def settings (config : Option String) :
    ExceptT CommandError m (Settings × Option String) := do
  let path ← match config with
    | some path => pure (some path)
    | none => do
      match ← (Host.workingDirectory : ExceptT CommandError m _) with
      | some directory => (Settings.find? directory : ExceptT CommandError m _)
      | none => throw .noWorkingDirectory
  match path with
  | some file => do return (← (Settings.load file).adapt .settings, path)
  | none => do
    Host.note .settingsMissing
    return ({}, none)

-- Settings with another output directory.
def redirect (s : Settings) : Option String → Except SettingsError Settings
  | some output => { s with outputPath := output }.validate ""
  | none => .ok s

-- The lines that a command prints.
def run : Command → ExceptT CommandError m (List String)
  | generate schema config output clean dryRun => do
    let (s, _) ← settings config
    let s ← MonadExcept.ofExcept ((redirect s output).mapError .settings)
    return (← GenerateOptions.run { schema, clean, dryRun } s).lines
  | check config schema => do
    let (s, path) ← settings config
    return (← CheckReport.run s path schema).lines

end Command

inductive Failure where
  | usage (error : UsageError)
  | command (error : CommandError)
  deriving DecidableEq, Repr

-- How a run of the program ends.
structure Outcome where
  status : Nat
  output : String := ""
  failure : Option Failure := none
  deriving DecidableEq, Repr

namespace Outcome

def message? (o : Outcome) : Option String :=
  match o.failure with
  | some (.command error) => error.message?
  | _ => none

-- Lines with the end of each.
def ofLines (lines : List String) : String :=
  String.join (lines.map (· ++ "\n"))

def versionLine : String := "proto2ts 0.3.0"

def helpLines : List String :=
  ["Generate TypeScript type declarations from protobuf schemas",
   "",
   "Usage: proto2ts [OPTIONS] <COMMAND>",
   "",
   "Commands:",
   "  generate  Generate TypeScript declarations from a schema descriptor",
   "  check     Validate proto2ts.toml and list the types that would be generated",
   "  help      Print this message",
   "",
   "Options of generate:",
   "  -s, --schema <SCHEMA>  Path to the JSON schema descriptor",
   "  -c, --config <CONFIG>  Path to proto2ts.toml (by default the nearest one above the directory)",
   "  -o, --output <OUTPUT>  Output directory (instead of output_path)",
   "      --clean            Remove the output directory before writing",
   "      --dry-run          Show generated code without writing it",
   "",
   "Options of check:",
   "  -c, --config <CONFIG>  Path to proto2ts.toml (by default the nearest one above the directory)",
   "  -s, --schema <SCHEMA>  Also list the types that a schema declares",
   "",
   "Options:",
   "  -v, --verbose  Enable debug logging",
   "  -h, --help     Print help",
   "  -V, --version  Print version"]

def ofHalt : Halt → Outcome
  | .help => { status := 0, output := ofLines helpLines }
  | .version => { status := 0, output := ofLines [versionLine] }
  | .misuse error => { status := 2, failure := some (.usage error) }

def ofResult : Except CommandError (List String) → Outcome
  | .ok lines => { status := 0, output := ofLines lines }
  | .error error => { status := 1, failure := some (.command error) }

end Outcome

-- Runs the program with the given arguments.
def runProgram (args : List String) : m Outcome :=
  match Invocation.parse args with
  | .error halt => pure (.ofHalt halt)
  | .ok invocation => do return .ofResult (← invocation.command.run.run)

end ProtoTypings
