import ProtoTypings.Descriptor
import ProtoTypings.Schema.Graph

namespace ProtoTypings.Graph

variable (g : Graph)

def ruleOf (message : NodeId) (field : String) : Option String → Except SchemaError Rule
  | none => .ok .optional
  | some name =>
    match Rule.ofName? name with
    | some rule => .ok rule
    | none => .error (.unknownRule (g.fullName message ++ "." ++ field) name)

def loadFields (message : NodeId) : Graph → List (String × FieldSpec) → Except SchemaError Graph
  | g, [] => .ok g
  | g, (name, spec) :: rest => do
    let rule ← g.ruleOf message name spec.rule
    let field : Field := {
      typeName := spec.typeName, number := spec.number, rule,
      proto3Optional := spec.proto3Optional, keyType := spec.keyType }
    let (g, _) ← g.addField message name field
    loadFields message g rest

-- The fields of a message with the given names.
def membersOf (message : NodeId) (oneof : String) : List String → Except SchemaError (List NodeId)
  | [] => .ok []
  | name :: rest =>
    match (g.fields message).find? (g.name · = name) with
    | some field => do return field :: (← membersOf message oneof rest)
    | none => .error (.unknownMember (g.fullName message) oneof name)

def loadOneofs (message : NodeId) : Graph → List (String × List String) → Except SchemaError Graph
  | g, [] => .ok g
  | g, (name, names) :: rest => do
    let members ← g.membersOf message name names
    let (g, _) ← g.addOneof message name members
    loadOneofs message g rest

def loadMethods (service : NodeId) : Graph → List (String × MethodSpec) → Except SchemaError Graph
  | g, [] => .ok g
  | g, (name, spec) :: rest => do
    let g ← g.addMethod service {
      name, request := spec.request, response := spec.response,
      requestStream := spec.requestStream, responseStream := spec.responseStream }
    loadMethods service g rest

-- Adds the node itself with its fields, values or methods.
def loadHead (parent : NodeId) (name : String) (d : Descriptor) :
    Except SchemaError (Graph × NodeId) :=
  match d.fields, d.values, d.methods with
  | some fields, _, _ => do
    let (g, id) ← g.addMessage parent name
    let g ← loadFields id g fields
    return (← loadOneofs id g d.oneofs, id)
  | none, some values, _ => g.addEnum parent name (values.map fun (n, v) => ⟨n, v⟩)
  | none, none, some methods => do
    let (g, id) ← g.addService parent name
    return (← loadMethods id g methods, id)
  | none, none, none => g.addPackage parent name

def setFile? (id : NodeId) : Option String → Graph
  | some file => g.setFile id file
  | none => g

mutual

def loadNode (parent : NodeId) (name : String) (g : Graph) : Descriptor → Except SchemaError Graph
  | ⟨filename, nested, fields, oneofs, values, methods⟩ => do
    let (g, id) ← g.loadHead parent name ⟨filename, [], fields, oneofs, values, methods⟩
    loadChildren id (g.setFile? id filename) nested

def loadChildren (parent : NodeId) (g : Graph) :
    List (String × Descriptor) → Except SchemaError Graph
  | [] => .ok g
  | (name, d) :: rest => do
    let g ← loadNode parent name g d
    loadChildren parent g rest

end

-- Points a field at what its type name stands for in its message, if there is such a type.
def resolveOne (g : Graph) (id : NodeId) : Except SchemaError Graph :=
  match g.field? id, g.parent? id with
  | some field, some message =>
    match g.lookup? message field.typeName with
    | some target => g.resolve id target
    | none => .ok g
  | _, _ => .ok g

def ofDescriptor (d : Descriptor) : Except SchemaError Graph := do
  let g ← loadChildren root (empty.setFile? root d.filename) d.nested
  g.ids.foldlM resolveOne g

def fieldCount : Nat :=
  g.ids.countP fun id => (g.field? id).isSome

-- The graph of a schema document.
def parse (s : String) : Except SchemaError Graph :=
  match Descriptor.parse? s with
  | some d => ofDescriptor d
  | none => .error .malformed

end ProtoTypings.Graph
