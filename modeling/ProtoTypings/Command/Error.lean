import ProtoTypings.Host.Writing
import ProtoTypings.Schema.Error
import ProtoTypings.Settings.Validation

namespace ProtoTypings

-- Why a command fails.
inductive CommandError where
  | settings (cause : SettingsError)
  | noWorkingDirectory
  | schema (path : String) (cause : SchemaError)
  | generation (cause : GenerationError)
  | collection (cause : Collision)
  | cleaning (directory : String)
  | writing (path : String) (cause : WriteError)
  deriving DecidableEq, Repr

namespace CommandError

-- What could not be done. Errors in settings speak for themselves.
def message? : CommandError → Option String
  | settings _ => none
  | noWorkingDirectory => some "Failed to read current directory"
  | schema path _ => some ("Failed to load schema from " ++ path)
  | generation _ => some "Failed to generate TypeScript declarations"
  | collection _ => some "Failed to collect types"
  | cleaning directory => some ("Failed to clean " ++ directory)
  | writing path _ => some ("Failed to write " ++ path)

-- Why it could not be done.
def cause? : CommandError → Option String
  | settings cause => some cause.message
  | schema _ cause => some cause.message
  | generation cause => some cause.message
  | collection cause => some cause.message
  | writing _ cause => some cause.message
  | noWorkingDirectory | cleaning _ => none

end CommandError

end ProtoTypings
