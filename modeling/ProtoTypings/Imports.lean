namespace ProtoTypings

-- The use of a name that another generated file declares.
structure Use where
  path : String
  name : String
  deriving DecidableEq, Repr

-- Files are in the order of their first use, and so are the names of a file.
structure Imports where
  groups : List (String × List String) := []
  deriving DecidableEq, Repr, Inhabited

namespace Imports

variable (i : Imports)

def addName (name : String) (names : List String) : List String :=
  if names.contains name then names else names ++ [name]

def addTo (path name : String) : List (String × List String) → List (String × List String)
  | [] => [(path, [name])]
  | (p, names) :: rest =>
    if p = path then (p, addName name names) :: rest else (p, names) :: addTo path name rest

def add (u : Use) : Imports :=
  ⟨addTo u.path u.name i.groups⟩

def addAll (uses : List Use) : Imports :=
  uses.foldl add i

def ofUses (uses : List Use) : Imports :=
  addAll {} uses

-- The uses that the imports stand for.
def uses : List Use :=
  i.groups.flatMap fun (path, names) => names.map fun name => ⟨path, name⟩

def merge (other : Imports) : Imports :=
  i.addAll other.uses

-- Keeps the names that `keep` accepts, and no file without names.
def retain (keep : String → Bool) : Imports :=
  ⟨(i.groups.map fun (path, names) => (path, names.filter keep)).filter fun (_, names) =>
    !names.isEmpty⟩

def names? (path : String) : Option (List String) :=
  i.groups.lookup path

def hasFile (path : String) : Bool :=
  (i.names? path).isSome

def size : Nat := i.groups.length

end Imports

end ProtoTypings
