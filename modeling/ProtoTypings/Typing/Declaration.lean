import ProtoTypings.Code.Fragment
import ProtoTypings.Typing.TypeExpr

namespace ProtoTypings

structure TypeParam where
  name : String
  bound : Option TypeExpr := none
  fallback : Option TypeExpr := none

def TypeParam.render (p : TypeParam) : String :=
  p.name ++ (p.bound.map fun t => " extends " ++ t.render .default).getD "" ++
    (p.fallback.map fun t => " = " ++ t.render .default).getD ""

def TypeParam.references (p : TypeParam) : List String :=
  (p.bound.toList ++ p.fallback.toList).flatMap TypeExpr.references

structure Interface where
  name : String
  params : List TypeParam := []
  bases : List String := []
  members : List Member := []
  exported : Bool := true

-- An enum whose values are texts. Keys are written as they are given.
structure EnumDecl where
  name : String
  members : List (String × String) := []
  exported : Bool := true

structure Alias where
  name : String
  type : TypeExpr
  exported : Bool := true

inductive Declaration where
  | interface (decl : Interface)
  | enum (decl : EnumDecl)
  | typeAlias (decl : Alias)

-- The modifier in front of a declaration.
def exportWord (exported : Bool) : String :=
  if exported then "export " else ""

namespace Interface

def header (i : Interface) : String :=
  exportWord i.exported ++ "interface " ++ i.name ++
    (if i.params.isEmpty then "" else "<" ++ ", ".intercalate (i.params.map TypeParam.render) ++ ">") ++
    (if i.bases.isEmpty then "" else " extends " ++ ", ".intercalate i.bases) ++ " \x7b"

-- Members are laid out with the default indent, whatever the file around them uses.
def fragments (i : Interface) : List Fragment :=
  [.block i.header ((i.members.flatMap (·.lines .default)).map .line) (some "\x7d")]

-- The names that members, type parameters and bases mention.
def references (i : Interface) : List String :=
  i.members.flatMap Property.references ++ i.params.flatMap TypeParam.references ++
    i.bases.flatMap Identifier.inText

end Interface

namespace EnumDecl

-- A comma follows every line but the last.
def separated : List String → List String
  | [] => []
  | [l] => [l]
  | l :: ls => (l ++ ",") :: separated ls

def fragments (e : EnumDecl) : List Fragment :=
  let body := separated (e.members.map fun (key, value) => key ++ " = " ++ Identifier.quote value)
  [.block (exportWord e.exported ++ "enum " ++ e.name ++ " \x7b") (body.map .line) (some "\x7d")]

end EnumDecl

def Alias.fragments (a : Alias) : List Fragment :=
  let text := exportWord a.exported ++ "type " ++ a.name ++ " = " ++ a.type.render .default ++ ";"
  (Text.cut '\n' text).map .line

namespace Declaration

def name : Declaration → String
  | interface d => d.name
  | enum d => d.name
  | typeAlias d => d.name

-- The word that introduces the declaration.
def keyword : Declaration → String
  | interface _ => "interface"
  | enum _ => "enum"
  | typeAlias _ => "type"

def fragments : Declaration → List Fragment
  | interface d => d.fragments
  | enum d => d.fragments
  | typeAlias d => d.fragments

-- The text of the declaration on its own.
def text (d : Declaration) : String :=
  Fragment.renderAll .default 0 d.fragments

end Declaration

end ProtoTypings
