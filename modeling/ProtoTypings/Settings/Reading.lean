import ProtoTypings.Settings.Basic
import ProtoTypings.Settings.Document

namespace ProtoTypings.Settings

open Document

def textOf? : Value → Option String
  | .text value => some value
  | _ => none

def flagOf? : Value → Option Bool
  | .flag value => some value
  | _ => none

def textsOf? : Value → Option (List String)
  | .texts values => some values
  | _ => none

-- The text of an entry of a table.
def entryOf? : String × Item → Option (String × String)
  | (key, .text value) => some (key, value)
  | (_, .empty) => none

-- The key of the text of a moment, where a table is wanted.
def momentKey : String := "$__toml_private_datetime"

-- The entries of a table by increasing key. A moment is a table with its text.
def tableOf? : Value → Option (List (String × String))
  | .table entries => (entries.mapM entryOf?).map (·.mergeSort fun a b => decide (a.1 ≤ b.1))
  | .moment value => some [(momentKey, value.text)]
  | _ => none

-- The name of a choice, which is a text or the only key of a table.
def choiceOf? : Value → Option String
  | .text value => some value
  | .table [(key, .empty)] => some key
  | _ => none

-- Gives a setting the value that a document has for its key.
def assign? (s : Settings) (key : String) (value : Value) : Option Settings :=
  match key with
  | "input_root" => do return { s with inputRoot := ← textOf? value }
  | "output_path" => do return { s with outputPath := ← textOf? value }
  | "namespaces_to_ignore" => do return { s with ignoredPackages := ← textsOf? value }
  | "type_name_template" => do return { s with typeTemplate := ← textOf? value }
  | "type_name_case" => do return { s with typeCasing := ← Casing.ofName? (← choiceOf? value) }
  | "type_name_ignore_parent_names" => do return { s with ignoredParents := ← textsOf? value }
  | "enum_name_template" => do return { s with enumTemplate := ← textOf? value }
  | "enum_name_case" => do return { s with enumCasing := ← Casing.ofName? (← choiceOf? value) }
  | "generated_type_overrides" => do return { s with overrides := ← tableOf? value }
  | "generated_type_comments" => do return { s with comments := ← tableOf? value }
  | "generate_index_file" => do return { s with writeIndex := ← flagOf? value }
  | "enum_style" => do return { s with enumStyle := ← EnumStyle.ofName? (← choiceOf? value) }
  | "file_header_template" => do return { s with fileHeader := some (← textOf? value) }
  | "index_header_template" => do return { s with indexHeader := some (← textOf? value) }
  | _ => none

def ofDocument? (entries : List (String × Value)) : Option Settings :=
  entries.foldlM (fun s (key, value) => s.assign? key value) {}

def read? (s : String) : Option Settings := do
  ofDocument? (← Document.parse? s)

end ProtoTypings.Settings
