namespace ProtoTypings

abbrev NodeId := Nat

def NodeId.label (id : NodeId) : String :=
  "#" ++ Nat.repr id

inductive Kind where
  | package
  | message
  | enum
  | field
  | mapField
  | oneof
  | service
  | method
  deriving DecidableEq, Repr

namespace Kind

def text : Kind → String
  | package => "namespace"
  | message => "message"
  | enum => "enum"
  | field => "field"
  | mapField => "map field"
  | oneof => "oneof"
  | service => "service"
  | method => "method"

-- The kinds that become types.
def isType : Kind → Bool
  | message | enum => true
  | _ => false

-- What a node of one kind may hold.
def admits : Kind → Kind → Bool
  | package, child => child = package || child.isType || child = service
  | message, child => child.isType || child = field || child = mapField || child = oneof
  | service, child => child.isType || child = method
  | _, _ => false

end Kind

inductive Rule where
  | optional
  | required
  | repeated
  deriving DecidableEq, Repr, Inhabited

namespace Rule

def name : Rule → String
  | optional => "optional"
  | required => "required"
  | repeated => "repeated"

def ofName? : String → Option Rule
  | "optional" => some optional
  | "required" => some required
  | "repeated" => some repeated
  | _ => none

end Rule

structure Field where
  -- the type as the schema spells it
  typeName : String
  number : Nat := 0
  rule : Rule := .optional
  -- marked `optional` in a schema where that is not the default; the oneof group of such a field
  -- has no other member and stands for nothing
  proto3Optional : Bool := false
  -- the type of the keys, if the field is a map
  keyType : Option String := none
  -- the message or enum that the type name stands for
  resolved : Option NodeId := none
  oneof : Option NodeId := none
  deriving DecidableEq, Repr

structure EnumValue where
  name : String
  number : Int
  deriving DecidableEq, Repr

structure Method where
  name : String
  request : String
  response : String
  requestStream : Bool := false
  responseStream : Bool := false
  deriving DecidableEq, Repr

inductive Content where
  | package (children : List NodeId)
  | message (fields oneofs nested : List NodeId)
  | enum (values : List EnumValue)
  | field (data : Field)
  | oneof (members : List NodeId)
  | service (methods : List Method) (nested : List NodeId)
  deriving DecidableEq, Repr

namespace Content

def kind : Content → Kind
  | package _ => .package
  | message .. => .message
  | enum _ => .enum
  | field data => if data.keyType.isSome then .mapField else .field
  | oneof _ => .oneof
  | service .. => .service

-- The declarations below a node. The fields of a message are not among them.
def children : Content → List NodeId
  | package children => children
  | message _ _ nested => nested
  | service _ nested => nested
  | _ => []

-- Enters a new node into the list of its parent that is meant for its kind.
def link (child : NodeId) (childKind : Kind) : Content → Content
  | package children => package (children ++ [child])
  | message fields oneofs nested =>
    match childKind with
    | .field | .mapField => message (fields ++ [child]) oneofs nested
    | .oneof => message fields (oneofs ++ [child]) nested
    | _ => message fields oneofs (nested ++ [child])
  | service methods nested => service methods (nested ++ [child])
  | content => content

def mapField (f : Field → Field) : Content → Content
  | field data => field (f data)
  | content => content

def field? : Content → Option Field
  | field data => some data
  | _ => none

end Content

structure Node where
  name : String
  parent : Option NodeId
  -- the schema file, where a node has one of its own
  file : Option String := none
  content : Content
  deriving DecidableEq, Repr

end ProtoTypings
