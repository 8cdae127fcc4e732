import ProtoTypings.Registry.Entry
import ProtoTypings.Typing.Declaration

namespace ProtoTypings

-- What a hook is asked about.
inductive Question where
  | interface (node : NodeId) (name : String) (offer : Interface)
  | member (field message : NodeId) (offer : Member)
  | file (path : String) (entries : List Entry) (offer : String)
  | customFiles

inductive Event where
  | schemaLoaded (nodes fields : Nat)
  | settingsFound (path : String)
  | settingsMissing
  | packageIgnored (package : String)
  | typeRegistered (name path : String)
  | typesCollected (types : Nat)
  | typeUnknown (field typeName : String)
  | messageRecursive (field message : String)
  | interfaceDropped (interface : String)
  | fileDropped (path : String)
  | fileGenerated (path : String) (types : Nat)
  | customFilesAdded (files : Nat)
  | typingsGenerated (types files : Nat)
  | asked (question : Question)

inductive Level where
  | debug
  | info
  | warn
  deriving DecidableEq, Repr

def Level.name : Level → String
  | debug => "debug"
  | info => "info"
  | warn => "warn"

structure LogLine where
  level : Level
  message : String
  details : List (String × String) := []

def LogLine.text (l : LogLine) : String :=
  l.level.name ++ ": " ++ l.message ++
    String.join (l.details.map fun (name, value) => " " ++ name ++ "=" ++ value)

-- The line of the log for an event. Questions to hooks are not logged.
def Event.logLine? : Event → Option LogLine
  | schemaLoaded nodes fields => some ⟨.debug, "loaded schema descriptor",
      [("nodes", Nat.repr nodes), ("fields", Nat.repr fields)]⟩
  | settingsFound path => some ⟨.debug, "using discovered config", [("path", path)]⟩
  | settingsMissing => some ⟨.debug, "no proto2ts.toml found, using defaults", []⟩
  | packageIgnored package =>
    some ⟨.debug, "skipping ignored namespace", [("namespace", package)]⟩
  | typeRegistered name path => some ⟨.debug, "registered type", [("name", name), ("path", path)]⟩
  | typesCollected types => some ⟨.debug, "collected named types", [("types", Nat.repr types)]⟩
  | typeUnknown field typeName => some ⟨.warn, "no TypeScript type for field, using any",
      [("field", field), ("type_name", typeName)]⟩
  -- the message itself is the text of this line
  | messageRecursive field message => some ⟨.warn, message, [("field", field)]⟩
  | interfaceDropped interface =>
    some ⟨.debug, "interface suppressed by hook", [("interface", interface)]⟩
  | fileDropped path => some ⟨.debug, "file suppressed by hook", [("path", path)]⟩
  | fileGenerated path types =>
    some ⟨.debug, "generated file", [("path", path), ("types", Nat.repr types)]⟩
  | customFilesAdded files => some ⟨.debug, "custom files added", [("files", Nat.repr files)]⟩
  | typingsGenerated types files => some ⟨.info, "generated TypeScript declarations",
      [("types", Nat.repr types), ("files", Nat.repr files)]⟩
  | asked _ => none

end ProtoTypings
