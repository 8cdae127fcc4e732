import ProtoTypings.Host.Basic
import ProtoTypings.Host.Path
import ProtoTypings.Schema.Loading
import ProtoTypings.Settings.Validation

namespace ProtoTypings

variable {m : Type → Type} [Monad m] [Host m]

def Graph.load (path : String) : ExceptT SchemaError m Graph := do
  match ← Host.readText path with
  | none => throw (.unreadable path)
  | some text => do
    let g ← MonadExcept.ofExcept (Graph.parse text)
    Host.note (.schemaLoaded g.size g.fieldCount)
    return g

namespace Settings

def fileName : String := "proto2ts.toml"

def load (path : String) : ExceptT SettingsError m Settings := do
  match ← Host.readText path with
  | none => throw (.unreadable path)
  | some text => MonadExcept.ofExcept (Settings.parse text)

-- The settings file that is nearest to a directory, in it or above it.
def find? (start : String) : m (Option String) :=
  ((HostPath.ancestors start).map (HostPath.join · fileName)).findM? Host.isFile

-- The settings for a directory; the defaults if there is no file with settings.
def discover (start : String) : ExceptT SettingsError m Settings := do
  match ← (find? start : ExceptT SettingsError m _) with
  | some path => do
    Host.note (.settingsFound path)
    load path
  | none => do
    Host.note .settingsMissing
    return {}

end Settings

end ProtoTypings
