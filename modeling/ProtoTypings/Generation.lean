import ProtoTypings.Mapping
import ProtoTypings.Timestamp
import ProtoTypings.Typing.SourceFile

namespace ProtoTypings

-- A run: what is generated from which graph, under which settings.
structure Generation where
  graph : Graph
  settings : Settings
  hooks : Hooks := {}
  time : Timestamp := ⟨0, 0⟩

namespace Generation

variable (run : Generation)

def mapping (registry : Registry) (path : String) : Mapping where
  graph := run.graph
  registry := registry
  wellKnown := WellKnown.withOverrides run.settings.overrides
  hooks := run.hooks
  path := path

-- The comment that the settings give for the type of a field.
def typeComment? (field : NodeId) : Option String := do
  let data ← run.graph.field? field
  let comments := run.settings.comments
  (comments.lookup data.typeName).or (comments.lookup (Text.dropFront '.' data.typeName))

-- The member for a field of a declared message, with the comment for its type.
def memberFor (m : Mapping) (field : NodeId) : Draft (Option Member) := do
  let member ← m.memberOf [] field
  return member.map fun member =>
    { member with leading := member.leading ++ (run.typeComment? field).toList }

def interfaceOffer (e : Entry) : Draft.Offer Interface where
  kind := .interface
  subject := run.graph.fullName e.node
  hook := run.hooks.interface.map fun hook => hook run.graph e.node e.name
  question := .interface e.node e.name
  name := Interface.name
  references := Interface.references
  dropped := [.interfaceDropped e.name]

def interfaceFor (m : Mapping) (e : Entry) : Draft (Option Interface) :=
  Draft.consult (run.interfaceOffer e) do
    let members ← Draft.each (run.memberFor m) (run.graph.fields e.node)
    return { name := e.name, members := members.filterMap id }

-- The declaration of an enum, in the style of the settings.
def enumFor (e : Entry) (values : List EnumValue) : Declaration :=
  match run.settings.enumStyle with
  | .enum =>
    let enumName := run.graph.name e.node
    .enum {
      name := e.name
      members := values.map fun v => (Identifier.enumKey enumName v.name, v.name) }
  | .union => .typeAlias { name := e.name, type := .literals (values.map EnumValue.name) }

-- The declaration of an entry. A hook may drop that of a message.
def declarationFor (m : Mapping) (e : Entry) : Draft (Option Declaration) :=
  match run.graph.enumValues? e.node with
  | some values => pure (some (run.enumFor e values))
  | none =>
    if run.graph.isMessage e.node then do
      return (← run.interfaceFor m e).map .interface
    else pure none

def declarations (registry : Registry) (path : String) (entries : List Entry) :
    Draft (List Declaration) := do
  let found ← Draft.each (run.declarationFor (run.mapping registry path)) entries
  return found.filterMap id

-- One import statement for each file that the given uses name.
def importStmts (path : String) (uses : List Use) : List ImportStmt :=
  (Imports.ofUses uses).groups.map fun (source, names) =>
    { source := OutputPath.specifier path source, named := names, typeOnly := true }

def header? (path : String) : Option String :=
  run.settings.fileHeader.map fun template =>
    Template.render template
      [⟨"generationTimestamp", run.time.text⟩, ⟨"sourceFile", OutputPath.toSource path⟩] false

def sourceFile (path : String) (uses : List Use) (body : List Declaration) : SourceFile where
  header := run.header? path
  imports := importStmts path uses
  body := body

-- The text of a file of declarations, which settles the uses of its declarations.
def render (registry : Registry) (path : String) (entries : List Entry) : Draft String :=
  let d := run.declarations registry path entries
  { result := d.result.map fun body => (run.sourceFile path d.uses body).render .default
    events := d.events }

-- Offers a file to the hook for files.
def reviewed (path : String) (entries : List Entry) (content : String) : Draft (Option String) :=
  match run.hooks.file with
  | none => pure (some content)
  | some hook => do
    Draft.note (.asked (.file path entries content))
    match hook path entries content with
    | .error message => Draft.fail (.hook .file path message)
    | .ok .keep => return some content
    | .ok (.replace custom) => return some custom
    | .ok .drop => do
      Draft.note (.fileDropped path)
      return none

-- A file of declarations, unless a hook drops it, by its path relative to the output root.
def fileFor (registry : Registry) (group : String × List Entry) : Draft (Option GeneratedFile) := do
  let (path, entries) := group
  let content ← run.render registry path entries
  match ← run.reviewed path entries content with
  | some content => do
    Draft.note (.fileGenerated path entries.length)
    return some ⟨path, content⟩
  | none => return none

def indexHeader? : Option String :=
  run.settings.indexHeader.map fun template =>
    Template.render template [⟨"generationTimestamp", run.time.text⟩] false

-- The index of the given files, if the settings ask for one and there are files.
def indexFile (paths : List String) : List GeneratedFile :=
  if run.settings.writeIndex && !paths.isEmpty then
    [⟨OutputPath.under run.settings.outputPath OutputPath.indexFile,
      (SourceFile.index run.indexHeader? paths).render .default⟩]
  else []

def customFiles (registry : Registry) : Draft (List GeneratedFile) :=
  match run.hooks.customFiles with
  | none => pure []
  | some hook => do
    Draft.note (.asked .customFiles)
    match hook run.graph registry with
    | .error message => Draft.fail (.hook .customFiles "schema root" message)
    | .ok files => do
      Draft.note (.customFilesAdded files.length)
      return files

def registry : Draft Registry :=
  let c := Registry.collect {} run.graph run.settings
  match c.collision with
  | some collision => { result := .error (.collision collision), events := c.events }
  | none => { result := .ok c.registry, events := c.events }

-- The files of the run, in the order in which they are written.
def files : Draft (List GeneratedFile) := do
  let registry ← run.registry
  let declared := (← Draft.each (run.fileFor registry) registry.byFile).filterMap id
  let placed := declared.map fun file =>
    { file with path := OutputPath.under run.settings.outputPath file.path }
  let generated := placed ++ run.indexFile (declared.map GeneratedFile.path)
  let custom ← run.customFiles registry
  let files := generated ++ custom
  Draft.note (.typingsGenerated registry.size files.length)
  return files

end Generation

end ProtoTypings
