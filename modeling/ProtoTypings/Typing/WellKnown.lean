import ProtoTypings.Text.Affix

namespace ProtoTypings

-- Code for schema types. The first entry of a name counts.
structure WellKnown where
  entries : List (String × String)

namespace WellKnown

-- Integers of 64 bits do not fit a number of the target, so they are texts.
def builtin : List (String × String) :=
  [("bool", "boolean"),
   ("double", "number"),
   ("float", "number"),
   ("int32", "number"),
   ("uint32", "number"),
   ("sint32", "number"),
   ("fixed32", "number"),
   ("sfixed32", "number"),
   ("string", "string"),
   ("bytes", "string"),
   ("int64", "string"),
   ("uint64", "string"),
   ("sint64", "string"),
   ("fixed64", "string"),
   ("sfixed64", "string"),
   ("google.protobuf.Timestamp", "string"),
   ("google.protobuf.Duration", "string"),
   ("google.protobuf.FieldMask", "string"),
   ("google.protobuf.BoolValue", "boolean | null"),
   ("google.protobuf.StringValue", "string | null"),
   ("google.protobuf.Int64Value", "string | null"),
   ("google.protobuf.UInt64Value", "string | null"),
   ("google.protobuf.BytesValue", "string | null"),
   ("google.protobuf.Int32Value", "number | null"),
   ("google.protobuf.UInt32Value", "number | null"),
   ("google.protobuf.FloatValue", "number | null"),
   ("google.protobuf.DoubleValue", "number | null"),
   ("google.protobuf.NullValue", "null"),
   ("google.protobuf.Empty", "\x7b\x7d"),
   ("google.protobuf.ListValue", "any[]"),
   ("google.protobuf.Struct", "Record<string, any>"),
   ("google.protobuf.Any", "\x7b '@type': string, value: any \x7d")]

-- The table where later overrides count before earlier ones and all of them before the built-in
-- entries. Dots in front of an overridden name are of no account.
def withOverrides (overrides : List (String × String)) : WellKnown :=
  ⟨(overrides.map fun (name, code) => (Text.dropFront '.' name, code)).reverse ++ builtin⟩

-- The code for a type, whose name may have a dot in front.
def code? (w : WellKnown) (typeName : String) : Option String :=
  w.entries.lookup ((Text.stripFront? "." typeName).getD typeName)

end WellKnown

end ProtoTypings
