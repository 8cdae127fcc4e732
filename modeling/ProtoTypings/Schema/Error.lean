import ProtoTypings.Schema.Node

namespace ProtoTypings

-- Why a schema cannot be read, loaded or extended.
inductive SchemaError where
  | unreadable (path : String)
  | malformed
  | misplaced (parent : String) (parentKind : Kind) (child : String) (childKind : Kind)
  | unknownRule (field rule : String)
  | unknownMember (message oneof field : String)
  | alreadyGrouped (field oneof : String)
  | notAType (name : String) (kind : Kind)
  | noSuchNode (id : NodeId)
  deriving DecidableEq, Repr

def SchemaError.message : SchemaError → String
  | unreadable path => "failed to read schema descriptor '" ++ path ++ "'"
  | malformed => "failed to parse schema descriptor"
  | misplaced parent parentKind child childKind =>
    parentKind.text ++ " '" ++ parent ++ "' cannot contain " ++ childKind.text ++ " '" ++ child ++ "'"
  | unknownRule field rule =>
    "field '" ++ field ++ "' has unknown rule '" ++ rule ++
      "', expected repeated, required or optional"
  | unknownMember message oneof field =>
    "oneof '" ++ oneof ++ "' in '" ++ message ++ "' references unknown field '" ++ field ++ "'"
  | alreadyGrouped field oneof =>
    "field '" ++ field ++ "' already belongs to oneof '" ++ oneof ++ "'"
  | notAType name kind => "'" ++ name ++ "' is a " ++ kind.text ++ ", expected a message or enum"
  | noSuchNode id => "no node " ++ id.label

end ProtoTypings
