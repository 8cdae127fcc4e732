import ProtoTypings.OutputPath
import ProtoTypings.Schema.Graph
import ProtoTypings.Settings.Basic
import ProtoTypings.Template

namespace ProtoTypings.Graph

variable (g : Graph)

-- The names above a node from the outermost on, without empty and ignored ones.
def parentNames (ignored : List String) (id : NodeId) : List String :=
  ((g.ancestors id).map g.name).filter (fun n => n ≠ "" && !ignored.contains n) |>.reverse

-- What fills the holes of a name template.
def nameVariables (ignored : List String) (id : NodeId) : List Variable :=
  [⟨"parentNodeNames", " ".intercalate (g.parentNames ignored id)⟩, ⟨"typeName", g.name id⟩]

def nameFrom (template : String) (casing : Casing) (ignored : List String) (id : NodeId) : String :=
  casing.apply (Template.render template (g.nameVariables ignored id) true)

-- The name that no setting changes.
def canonicalName (id : NodeId) : String :=
  g.nameFrom Settings.defaultTemplate .pascal [] id

def typeName (s : Settings) (id : NodeId) : String :=
  if g.kind? id = some .enum then g.nameFrom s.enumTemplate s.enumCasing s.ignoredParents id
  else g.nameFrom s.typeTemplate s.typeCasing s.ignoredParents id

-- The generated file that declares a type, relative to the output root.
def outputPath (s : Settings) (id : NodeId) : String :=
  match g.sourceFile? id with
  | some file => OutputPath.ofSource s.inputRoot file
  | none => OutputPath.unknownFile

end ProtoTypings.Graph
