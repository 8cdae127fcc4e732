import ProtoTypings.Format.Json

namespace ProtoTypings

structure FieldSpec where
  typeName : String
  number : Nat := 0
  rule : Option String := none
  keyType : Option String := none
  proto3Optional : Bool := false
  deriving DecidableEq, Repr

structure MethodSpec where
  request : String
  response : String
  requestStream : Bool := false
  responseStream : Bool := false
  deriving DecidableEq, Repr

structure Descriptor where
  filename : Option String := none
  nested : List (String × Descriptor) := []
  fields : Option (List (String × FieldSpec)) := none
  oneofs : List (String × List String) := []
  values : Option (List (String × Int)) := none
  methods : Option (List (String × MethodSpec)) := none

namespace Descriptor

-- Gives a key a value. A key that is there already keeps its place.
def upsert {α : Type} (key : String) (value : α) : List (String × α) → List (String × α)
  | [] => [(key, value)]
  | (k, v) :: rest => if k = key then (key, value) :: rest else (k, v) :: upsert key value rest

-- The values of the given keys of a record, which is an object, or an array with the values in the
-- order of the keys. An object may have other keys; a given key comes at most once.
def record? (keys : List String) : Json → Option (List (Option Json))
  | .object members => do
    let members ← members.mapM fun (key, value) => key.map fun key => (key, value)
    keys.mapM fun key =>
      match members.filter (·.1 = key) with
      | [] => some none
      | [(_, value)] => some (some value)
      | _ => none
  | .array items =>
    if items.length ≤ keys.length then
      some (items.map some ++ List.replicate (keys.length - items.length) none)
    else none
  | _ => none

-- The members of an object, each read by `read`. The last value of a repeated key counts, in the
-- place of the first.
def table? {α : Type} (read : Json → Option α) : Json → Option (List (String × α))
  | .object members => do
    let members ← members.mapM fun (key, value) => return (← key, ← read value)
    return members.foldl (fun table (key, value) => upsert key value table) []
  | _ => none

def text? : Json → Option String
  | .text value => value
  | _ => none

def flag? : Json → Option Bool
  | .bool value => some value
  | _ => none

def integer? (low high : Int) : Json → Option Int
  | .number (some n) => if low ≤ n ∧ n ≤ high then some n else none
  | _ => none

-- A part that may be left out, or be null.
def optional? {α : Type} (read : Json → Option α) : Option Json → Option (Option α)
  | none | some .null => some none
  | some json => (read json).map some

-- A part that has a value where it is left out.
def default? {α : Type} (value : α) (read : Json → Option α) : Option Json → Option α
  | none => some value
  | some json => read json

-- Reads something inside a container, where `depth` containers may be opened.
def inside {α : Type} (depth : Nat) (read : Nat → Json → Option α) (json : Json) : Option α :=
  match depth with
  | 0 => none
  | depth + 1 => read depth json

def fieldSpec? (depth : Nat) : Json → Option FieldSpec :=
  inside depth fun depth json => do
    match ← record? ["type", "id", "rule", "keyType", "options"] json with
    | [some type, id, rule, keyType, options] =>
      let number ← default? 0 (integer? 0 4294967295) id
      return {
        typeName := ← text? type
        number := number.toNat
        rule := ← optional? text? rule
        keyType := ← optional? text? keyType
        proto3Optional := ← default? false (inside depth fun _ json => do
          match ← record? ["proto3_optional"] json with
          | [flag] => default? false flag? flag
          | _ => none) options }
    | _ => none

def oneofSpec? (depth : Nat) : Json → Option (List String) :=
  inside depth fun depth json => do
    match ← record? ["oneof"] json with
    | [some names] =>
      inside depth (fun _ json =>
        match json with
        | .array items => items.mapM text?
        | _ => none) names
    | _ => none

def methodSpec? (depth : Nat) : Json → Option MethodSpec :=
  inside depth fun _ json => do
    match ← record? ["requestType", "responseType", "requestStream", "responseStream"] json with
    | [some request, some response, requestStream, responseStream] =>
      return {
        request := ← text? request
        response := ← text? response
        requestStream := ← default? false flag? requestStream
        responseStream := ← default? false flag? responseStream }
    | _ => none

-- Reads a node with `nested?` for its declarations, where `depth` containers may be opened inside it.
def node? (nested? : Json → Option (List (String × Descriptor))) (depth : Nat) (json : Json) :
    Option Descriptor := do
  match ← record? ["filename", "nested", "fields", "oneofs", "values", "methods"] json with
  | [filename, nested, fields, oneofs, values, methods] =>
    return {
      filename := ← optional? text? filename
      nested := ← default? [] nested? nested
      fields := ← optional? (inside depth fun depth => table? (fieldSpec? depth)) fields
      oneofs := ← default? [] (inside depth fun depth => table? (oneofSpec? depth)) oneofs
      values := ← optional? (inside depth fun _ =>
        table? (integer? (-2147483648) 2147483647)) values
      methods := ← optional? (inside depth fun depth => table? (methodSpec? depth)) methods }
  | _ => none

-- Reads a node where `depth` containers may be opened, the node itself included. Each node below it
-- takes two of them: itself, and the table it stands in.
def ofJson? : (depth : Nat) → Json → Option Descriptor
  | 0, _ => none
  | 1, json => node? (fun _ => none) 0 json
  | depth + 2, json => node? (table? (ofJson? depth)) (depth + 1) json

-- How many containers may be open at a time in the part of a document that is read. What stands
-- under keys without a meaning may be deeper.
def maxDepth : Nat := 127

def parse? (s : String) : Option Descriptor := do
  ofJson? maxDepth (← Json.parse? s)

end Descriptor

end ProtoTypings
