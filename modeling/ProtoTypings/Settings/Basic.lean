import ProtoTypings.Casing

namespace ProtoTypings

-- How an enum is declared: as an enum, or as a union of its values.
inductive EnumStyle where
  | enum
  | union
  deriving DecidableEq, Repr, Inhabited

namespace EnumStyle

def name : EnumStyle → String
  | enum => "enum"
  | union => "union"

def ofName? : String → Option EnumStyle
  | "enum" => some enum
  | "union" => some union
  | _ => none

-- A name that is not the name of a style.
structure Unknown where
  name : String

def Unknown.message (e : Unknown) : String :=
  "unknown enum style '" ++ e.name ++ "', expected 'enum' or 'union'"

-- The style of a name in any letter case. No letter outside ASCII has a lowercase form in these
-- names, so ASCII lowercase is enough.
def ofAnyCase (s : String) : Except Unknown EnumStyle :=
  match ofName? (String.ofList (s.toList.map Char.toLower)) with
  | some style => .ok style
  | none => .error ⟨s⟩

end EnumStyle

-- The template of names where the settings give none: the names around a type, then its own.
def Settings.defaultTemplate : String :=
  "\x7b\x7bparentNodeNames\x7d\x7d\x7b\x7btypeName\x7d\x7d"

structure Settings where
  -- what is taken off the front of schema files
  inputRoot : String := ""
  outputPath : String := "generated_from_proto"
  -- packages that are left out with all that they hold
  ignoredPackages : List String := []
  typeTemplate : String := Settings.defaultTemplate
  typeCasing : Casing := .pascal
  -- names that are left out of `parentNodeNames`
  ignoredParents : List String := []
  enumTemplate : String := Settings.defaultTemplate
  enumCasing : Casing := .pascal
  -- schema types and the code that stands for them
  overrides : List (String × String) := []
  -- schema types and the comment above each member of that type
  comments : List (String × String) := []
  writeIndex : Bool := true
  enumStyle : EnumStyle := .union
  fileHeader : Option String := none
  indexHeader : Option String := none
  deriving DecidableEq, Repr, Inhabited

namespace Settings

def ignores (s : Settings) (package : String) : Bool :=
  s.ignoredPackages.contains package

end Settings

end ProtoTypings
