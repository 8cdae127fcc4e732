import ProtoTypings.Command.Error
import ProtoTypings.Command.Report
import ProtoTypings.Inputs
import ProtoTypings.Registry.Basic

namespace ProtoTypings

-- The word that introduces the declaration of a type.
def Graph.keyword (g : Graph) (style : EnumStyle) (id : NodeId) : String :=
  match g.enumValues? id, style with
  | some _, .enum => "enum"
  | some _, .union => "type"
  | none, _ => "interface"

-- The types in each file, in the order of their declarations.
def Registry.summary (r : Registry) (g : Graph) (style : EnumStyle) : List FileSummary :=
  r.byFile.map fun (path, entries) =>
    { path, types := entries.map fun e => { keyword := g.keyword style e.node, name := e.name } }

-- The types that a schema declares under given settings.
def Graph.summary (g : Graph) (s : Settings) : Except Collision (List FileSummary) := do
  return (← Registry.build g s).summary g s.enumStyle

namespace CheckReport

variable {m : Type → Type} [Monad m] [Host m]

def summarize (s : Settings) (schema : String) : ExceptT CommandError m (List FileSummary) := do
  let graph ← (Graph.load schema).adapt (.schema schema)
  (Registry.collect {} graph s).events.forM Host.note
  MonadExcept.ofExcept ((graph.summary s).mapError .collection)

-- The report on settings, and on the types of a schema if one is given.
def run (s : Settings) (settingsPath schema : Option String) :
    ExceptT CommandError m CheckReport := do
  let files ← match schema with
    | some schema => do pure (some (← summarize s schema))
    | none => pure none
  return { settingsPath, outputPath := s.outputPath, enumStyle := s.enumStyle, files }

end CheckReport

end ProtoTypings
