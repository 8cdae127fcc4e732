import ProtoTypings.Settings.KeySpan
import ProtoTypings.Settings.Reading
import ProtoTypings.Text.Blank

namespace ProtoTypings

-- What is wrong with settings that can be read.
inductive SettingsProblem where
  | emptyOutputPath
  | missingPlaceholder (key template : String)
  | emptyTableKey (table : String)
  deriving DecidableEq, Repr

namespace SettingsProblem

-- The key to look for in the settings file.
def key : SettingsProblem → String
  | emptyOutputPath => "output_path"
  | missingPlaceholder key _ => key
  | emptyTableKey _ => ""

def message : SettingsProblem → String
  | emptyOutputPath => "output_path must not be empty"
  | missingPlaceholder key template =>
    "template '" ++ template ++ "' in " ++ key ++ " has no \x7b\x7btypeName\x7d\x7d placeholder"
  | emptyTableKey table => table ++ " keys must not be empty"

end SettingsProblem

inductive SettingsError where
  | unreadable (path : String)
  | malformed
  | invalid (problem : SettingsProblem) (span : Option Span)
  deriving DecidableEq, Repr

namespace SettingsError

def message : SettingsError → String
  | unreadable path => "failed to read '" ++ path ++ "'"
  | malformed => "failed to parse proto2ts.toml"
  | invalid problem _ => problem.message

def code? : SettingsError → Option String
  | unreadable _ => none
  | malformed => some "proto2ts::parse_error"
  | invalid (.missingPlaceholder ..) _ => some "proto2ts::missing_placeholder"
  | invalid _ _ => some "proto2ts::validation_error"

def help? : SettingsError → Option String
  | unreadable _ => some "create a proto2ts.toml or pass --config"
  | invalid (.missingPlaceholder ..) _ =>
    some ("every generated name needs the type's own name, e.g. \"" ++ Settings.defaultTemplate ++
      "\"")
  | _ => none

def span? : SettingsError → Option Span
  | invalid _ span => span
  | _ => none

-- What is said at the place of the error, if that is known.
def label? : SettingsError → Option String
  | invalid (.missingPlaceholder ..) (some _) => some "template defined here"
  | invalid problem (some _) => some problem.message
  | _ => none

end SettingsError

namespace Settings

def isBlankText (s : String) : Bool :=
  Text.trim s = ""

-- What stands before the first pair of closing braces.
def beforeClose? : List Char → Option (List Char)
  | [] => none
  | '}' :: '}' :: _ => some []
  | c :: rest => (beforeClose? rest).map (c :: ·)

-- Whether a template has a hole for the name of the type.
def hasTypeName : List Char → Bool
  | [] => false
  | '{' :: '{' :: rest =>
    (beforeClose? rest).any (fun inner => Text.trimChars Text.isBlank inner = "typeName".toList) ||
      hasTypeName rest
  | _ :: rest => hasTypeName rest

-- The first problem of settings.
def problem? (s : Settings) : Option SettingsProblem :=
  if isBlankText s.outputPath then some .emptyOutputPath
  else if !hasTypeName s.typeTemplate.toList then
    some (.missingPlaceholder "type_name_template" s.typeTemplate)
  else if !hasTypeName s.enumTemplate.toList then
    some (.missingPlaceholder "enum_name_template" s.enumTemplate)
  else if s.overrides.any fun (key, _) => isBlankText key then
    some (.emptyTableKey "generated_type_overrides")
  else if s.comments.any fun (key, _) => isBlankText key then
    some (.emptyTableKey "generated_type_comments")
  else none

-- Settings that were read from `source`, if nothing is wrong with them.
def validate (s : Settings) (source : String) : Except SettingsError Settings :=
  match s.problem? with
  | some problem => .error (.invalid problem (Span.ofKey? source problem.key))
  | none => .ok s

def parse (source : String) : Except SettingsError Settings :=
  match read? source with
  | some s => s.validate source
  | none => .error .malformed

end Settings

end ProtoTypings
