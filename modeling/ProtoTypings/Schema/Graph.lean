import ProtoTypings.Schema.Error
import ProtoTypings.Text.Affix

namespace ProtoTypings

-- Nodes are only ever added, so that the place of a node, counted from the root at zero, names it for good.
structure Graph where
  nodes : Array Node
  deriving DecidableEq, Repr

namespace Graph

-- The graph of the root package alone.
def empty : Graph :=
  ⟨#[{ name := "", parent := none, content := .package [] }]⟩

instance : Inhabited Graph := ⟨empty⟩

def root : NodeId := 0

variable (g : Graph)

def size : Nat := g.nodes.size

def node? (id : NodeId) : Option Node := g.nodes[id]?

def ids : List NodeId := List.range g.size

def name (id : NodeId) : String :=
  (g.node? id).elim "" Node.name

def parent? (id : NodeId) : Option NodeId :=
  (g.node? id).bind Node.parent

def kind? (id : NodeId) : Option Kind :=
  (g.node? id).map (·.content.kind)

def isType (id : NodeId) : Bool :=
  (g.kind? id).any Kind.isType

-- The nodes above a node, the nearest first. A node comes after its parent, so that a walk up from
-- node `n` has at most `n` steps.
def ancestors (id : NodeId) : List NodeId :=
  go id id
where
  go : Nat → NodeId → List NodeId
    | 0, _ => []
    | steps + 1, id =>
      match g.parent? id with
      | some parent => parent :: go steps parent
      | none => []

-- The file of a node, or that of the nearest node above it that has one.
def sourceFile? (id : NodeId) : Option String :=
  (id :: g.ancestors id).findSome? fun n => (g.node? n).bind Node.file

-- The names from the root to a node, with dots between them. Empty names are left out.
def fullName (id : NodeId) : String :=
  ".".intercalate (((id :: g.ancestors id).reverse.map g.name).filter (· ≠ ""))

def children (id : NodeId) : List NodeId :=
  (g.node? id).elim [] (·.content.children)

def fields (id : NodeId) : List NodeId :=
  match (g.node? id).map Node.content with
  | some (.message fields _ _) => fields
  | _ => []

def field? (id : NodeId) : Option Field :=
  (g.node? id).bind (·.content.field?)

def enumValues? (id : NodeId) : Option (List EnumValue) :=
  match (g.node? id).map Node.content with
  | some (.enum values) => some values
  | _ => none

def oneofMembers? (id : NodeId) : Option (List NodeId) :=
  match (g.node? id).map Node.content with
  | some (.oneof members) => some members
  | _ => none

def isMessage (id : NodeId) : Bool :=
  g.kind? id = some .message

def isNested (id : NodeId) : Bool :=
  (g.parent? id).any g.isMessage

def modify (id : NodeId) (f : Node → Node) : Graph :=
  ⟨g.nodes.modify id f⟩

def modifyField (id : NodeId) (f : Field → Field) : Graph :=
  g.modify id fun n => { n with content := n.content.mapField f }

-- Adds a node below `parent`, if a node of its kind may stand there.
def insert (parent : NodeId) (name : String) (content : Content) :
    Except SchemaError (Graph × NodeId) :=
  match g.node? parent with
  | none => .error (.noSuchNode parent)
  | some above =>
    if above.content.kind.admits content.kind then
      let id := g.size
      let added : Graph := ⟨g.nodes.push { name, parent := some parent, content }⟩
      let linked := added.modify parent fun n => { n with content := n.content.link id content.kind }
      .ok (linked, id)
    else .error (.misplaced (g.fullName parent) above.content.kind name content.kind)

def addPackage (parent : NodeId) (name : String) : Except SchemaError (Graph × NodeId) :=
  g.insert parent name (.package [])

def addMessage (parent : NodeId) (name : String) : Except SchemaError (Graph × NodeId) :=
  g.insert parent name (.message [] [] [])

def addEnum (parent : NodeId) (name : String) (values : List EnumValue) :
    Except SchemaError (Graph × NodeId) :=
  g.insert parent name (.enum values)

def addService (parent : NodeId) (name : String) : Except SchemaError (Graph × NodeId) :=
  g.insert parent name (.service [] [])

def addField (message : NodeId) (name : String) (field : Field) :
    Except SchemaError (Graph × NodeId) :=
  g.insert message name (.field field)

def addMethod (service : NodeId) (method : Method) : Except SchemaError Graph :=
  match g.node? service with
  | none => .error (.noSuchNode service)
  | some above =>
    match above.content with
    | .service methods nested =>
      .ok (g.modify service fun n => { n with content := .service (methods ++ [method]) nested })
    | content => .error (.misplaced (g.fullName service) content.kind method.name .method)

-- Whether a field can become a member of a new oneof group of a message.
def checkMember (message : NodeId) (oneof : String) (field : NodeId) : Except SchemaError Unit :=
  match g.field? field with
  | some data =>
    if g.parent? field = some message then
      match data.oneof with
      | some group => .error (.alreadyGrouped (g.fullName field) (g.name group))
      | none => .ok ()
    else .error (.unknownMember (g.fullName message) oneof (g.fullName field))
  | none => .error (.unknownMember (g.fullName message) oneof (g.fullName field))

-- Groups fields of a message.
def addOneof (message : NodeId) (name : String) (members : List NodeId) :
    Except SchemaError (Graph × NodeId) := do
  let (added, id) ← g.insert message name (.oneof members)
  members.forM (g.checkMember message name)
  return (members.foldl (fun h member => h.modifyField member ({ · with oneof := some id })) added, id)

def setFile (id : NodeId) (file : String) : Graph :=
  g.modify id fun n => { n with file := some file }

-- Points a field at the message or enum that its type name stands for.
def resolve (field target : NodeId) : Except SchemaError Graph :=
  match g.kind? target, g.kind? field with
  | none, _ => .error (.noSuchNode target)
  | _, none => .error (.noSuchNode field)
  | some targetKind, some fieldKind =>
    if !targetKind.isType then .error (.notAType (g.fullName target) targetKind)
    else if (g.field? field).isSome then
      .ok (g.modifyField field ({ · with resolved := some target }))
    else .error (.notAType (g.fullName field) fieldKind)

-- Follows a path of names down from a node.
def findFrom (start : NodeId) (path : String) : Option NodeId :=
  (Text.cut '.' path).foldlM (fun at_ segment => (g.children at_).find? (g.name · = segment)) start

-- The declaration of a full name, which may have a dot in front.
def find? (fullName : String) : Option NodeId :=
  let path := (Text.stripFront? "." fullName).getD fullName
  if path = "" then some root else g.findFrom root path

def findTypeFrom (path : String) (start : NodeId) : Option NodeId :=
  (g.findFrom start path).filter (g.isType ·)

-- The message or enum that a type name stands for in a scope: the innermost one on the way from the
-- scope to the root, or for a name with a dot in front the one that the root has.
def lookup? (scope : NodeId) (typeName : String) : Option NodeId :=
  match Text.stripFront? "." typeName with
  | some path => g.findTypeFrom path root
  | none => (scope :: g.ancestors scope).findSome? (g.findTypeFrom typeName)

end Graph

end ProtoTypings
