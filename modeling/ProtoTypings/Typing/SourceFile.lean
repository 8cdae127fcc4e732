import ProtoTypings.OutputPath
import ProtoTypings.Typing.Declaration

namespace ProtoTypings

structure ImportStmt where
  source : String
  named : List String := []
  typeOnly : Bool := false

def ImportStmt.text (i : ImportStmt) : String :=
  if i.named.isEmpty then "import '" ++ i.source ++ "';"
  else "import " ++ (if i.typeOnly then "type " else "") ++ "\x7b " ++ ", ".intercalate i.named ++
    " \x7d from '" ++ i.source ++ "';"

-- The statement that exports again all that a module exports.
def exportAll (source : String) : String :=
  "export * from '" ++ source ++ "';"

structure SourceFile where
  header : Option String := none
  imports : List ImportStmt := []
  body : List Declaration := []
  exports : List String := []

namespace SourceFile

-- Imports stand together, and so do exports; every declaration is a section of its own.
def sections (f : SourceFile) : List (List Fragment) :=
  f.header.toList.map (fun h => [.doc h]) ++
    (if f.imports.isEmpty then [] else [f.imports.map fun i => .line i.text]) ++
    f.body.map Declaration.fragments ++
    (if f.exports.isEmpty then [] else [f.exports.map fun e => .line (exportAll e)])

def fragments (f : SourceFile) : List Fragment :=
  [Fragment.blank].intercalate f.sections

def render (f : SourceFile) (indent : Indent) : String :=
  Fragment.renderAll indent 0 f.fragments

def isEmpty (f : SourceFile) : Bool :=
  f.header.isNone && f.imports.isEmpty && f.body.isEmpty && f.exports.isEmpty

-- The file that exports what the given generated files export.
def index (header : Option String) (files : List String) : SourceFile where
  header := header
  exports := files.map fun file => "./" ++ OutputPath.stem file

end SourceFile

end ProtoTypings
