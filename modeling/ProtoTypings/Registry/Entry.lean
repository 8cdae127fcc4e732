import ProtoTypings.Naming

namespace ProtoTypings

-- What identifies a declared type: its schema file, empty if unknown, and its canonical name.
structure TypeKey where
  file : String
  name : String
  deriving DecidableEq, Repr

-- A type with a declaration of its own, its generated name and its generated file.
structure Entry where
  key : TypeKey
  node : NodeId
  name : String
  path : String
  deriving DecidableEq, Repr

def TypeKey.of (g : Graph) (id : NodeId) : TypeKey where
  file := (g.sourceFile? id).getD ""
  name := g.canonicalName id

def Entry.of (g : Graph) (s : Settings) (id : NodeId) : Entry where
  key := TypeKey.of g id
  node := id
  name := g.typeName s id
  path := g.outputPath s id

end ProtoTypings
