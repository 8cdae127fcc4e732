import ProtoTypings.Event
import ProtoTypings.Registry.Entry

namespace ProtoTypings

-- Two types that would be one and the same declaration.
structure Collision where
  name : String
  file : String
  first : String
  second : String
  deriving DecidableEq, Repr

def Collision.message (c : Collision) : String :=
  "'" ++ c.first ++ "' and '" ++ c.second ++ "' both resolve to type '" ++ c.name ++ "' in '" ++
    c.file ++ "'"

-- Entries in the order of their registration.
structure Registry where
  entries : List Entry := []
  deriving DecidableEq, Repr, Inhabited

namespace Registry

variable (r : Registry)

def size : Nat := r.entries.length

-- The entry of a node, the latest if it has several.
def lookup? (id : NodeId) : Option Entry :=
  r.entries.reverse.find? (·.node = id)

def contains (id : NodeId) : Bool :=
  (r.lookup? id).isSome

-- Adds an entry and tells whether it is a new one. A key belongs to one node only.
def insert (g : Graph) (e : Entry) : Except Collision (Registry × Bool) :=
  match r.entries.find? (·.key = e.key) with
  | some known =>
    if known.node = e.node then .ok (r, false)
    else .error ⟨e.key.name, e.key.file, g.fullName known.node, g.fullName e.node⟩
  | none => .ok (⟨r.entries ++ [e]⟩, true)

-- The generated files, in the order of their first entry.
def files : List String :=
  (r.entries.map Entry.path).eraseDups

-- The entries of each generated file.
def byFile : List (String × List Entry) :=
  r.files.map fun path => (path, r.entries.filter (·.path = path))

end Registry

-- A stop on the walk through the packages and services of a graph.
inductive Visit where
  | ignored (package : NodeId)
  | declared (type : NodeId)
  deriving DecidableEq, Repr

-- The walk from the root. It passes over ignored packages and does not enter messages; its depth is
-- less than the number of nodes.
def Graph.visits (g : Graph) (s : Settings) : List Visit :=
  go g.size root
where
  go : Nat → NodeId → List Visit
    | 0, _ => []
    | depth + 1, id =>
      match g.kind? id with
      | some .package =>
        if id ≠ root ∧ s.ignores (g.name id) then [.ignored id]
        else (g.children id).flatMap (go depth)
      | some .service => (g.children id).flatMap (go depth)
      | some .message | some .enum => if g.isNested id then [] else [.declared id]
      | _ => []

-- What a walk has entered: all types it met, or those before the first collision.
structure Collected where
  registry : Registry
  collision : Option Collision := none
  events : List Event := []

namespace Registry

def collectVisits (g : Graph) (s : Settings) : Registry → List Visit → Collected
  | r, [] => { registry := r, events := [.typesCollected r.size] }
  | r, .ignored id :: rest =>
    let c := collectVisits g s r rest
    { c with events := .packageIgnored (g.fullName id) :: c.events }
  | r, .declared id :: rest =>
    let e := Entry.of g s id
    match r.insert g e with
    | .error collision => { registry := r, collision := some collision }
    | .ok (r, isNew) =>
      let c := collectVisits g s r rest
      { c with events := (if isNew then [.typeRegistered e.name e.path] else []) ++ c.events }

-- Enters every type of a graph that has a declaration of its own.
def collect (r : Registry) (g : Graph) (s : Settings) : Collected :=
  collectVisits g s r (g.visits s)

def build (g : Graph) (s : Settings) : Except Collision Registry :=
  let c := collect {} g s
  match c.collision with
  | some collision => .error collision
  | none => .ok c.registry

end Registry

end ProtoTypings
