import ProtoTypings.Host.Writing
import ProtoTypings.Settings.Basic
import ProtoTypings.Text.Blank

namespace ProtoTypings

structure WrittenFile where
  path : String
  result : WriteResult
  deriving DecidableEq, Repr

inductive GenerateReport where
  | preview (files : List GeneratedFile)
  -- `cleaned` is the directory that was removed before
  | written (cleaned : Option String) (files : List WrittenFile)
  deriving DecidableEq, Repr

def WrittenFile.line (file : WrittenFile) : String :=
  match file.result with
  | .created => "  + " ++ file.path
  | .replaced => "  - " ++ file.path
  | .unchanged => "  - " ++ file.path ++ " (unchanged)"

namespace GenerateReport

def previewLines (file : GeneratedFile) : List String :=
  ["── " ++ file.path ++ " ──", Text.trimEnd file.content, ""]

def writtenLines (files : List WrittenFile) : List String :=
  if files.isEmpty then ["No types to generate"]
  else ("Generated " ++ Nat.repr files.length ++ " files:") :: files.map WrittenFile.line

def lines : GenerateReport → List String
  | preview files => files.flatMap previewLines
  | written cleaned files =>
    (cleaned.toList.map fun directory => "Cleaned: " ++ directory) ++ writtenLines files

end GenerateReport

structure TypeSummary where
  keyword : String
  name : String
  deriving DecidableEq, Repr

-- The types that are declared in one file.
structure FileSummary where
  path : String
  types : List TypeSummary
  deriving DecidableEq, Repr

def FileSummary.lines (file : FileSummary) : List String :=
  ["", file.path ++ ":"] ++ file.types.map fun type => "  - " ++ type.keyword ++ " " ++ type.name

structure CheckReport where
  -- the settings file, if there is one
  settingsPath : Option String
  outputPath : String
  enumStyle : EnumStyle
  -- the files of a schema, if one was given
  files : Option (List FileSummary)
  deriving DecidableEq, Repr

def CheckReport.lines (r : CheckReport) : List String :=
  let found := match r.settingsPath with
    | some path => "✓ " ++ path ++ " is valid"
    | none => "✓ no proto2ts.toml found, using defaults"
  [found, "Output path: " ++ r.outputPath, "Enum style: " ++ r.enumStyle.name] ++
    (r.files.getD []).flatMap FileSummary.lines

end ProtoTypings
