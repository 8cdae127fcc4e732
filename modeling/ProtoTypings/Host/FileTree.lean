namespace ProtoTypings

inductive FileTree where
  | file (content : String)
  | directory (entries : List (String × FileTree))

namespace FileTree

def isDirectory : FileTree → Bool
  | file _ => false
  | directory _ => true

def content? : FileTree → Option String
  | file content => some content
  | directory _ => none

-- A place is the list of names that lead to a part of a tree.
def get? : (place : List String) → FileTree → Option FileTree
  | [], t => some t
  | name :: rest, directory entries =>
    match entries.lookup name with
    | some t => get? rest t
    | none => none
  | _ :: _, file _ => none

-- Changes what the directory at a place holds.
def alter (f : List (String × FileTree) → List (String × FileTree)) :
    (place : List String) → FileTree → FileTree
  | [], directory entries => directory (f entries)
  | name :: rest, directory entries =>
    directory (entries.map fun e => if e.1 = name then (name, alter f rest e.2) else e)
  | _, file content => file content

variable (t : FileTree) (place : List String)

-- Puts a tree under a name into the directory at a place.
def insert (name : String) (tree : FileTree) : FileTree :=
  t.alter (fun entries => entries.filter (·.1 ≠ name) ++ [(name, tree)]) place

-- Takes a name out of the directory at a place.
def erase (name : String) : FileTree :=
  t.alter (fun entries => entries.filter (·.1 ≠ name)) place

-- Takes all names out of the directory at a place.
def clear : FileTree :=
  t.alter (fun _ => []) place

mutual

-- The files that a tree is or holds, at any depth, with their places.
def files : FileTree → List (List String × String)
  | file content => [([], content)]
  | directory entries => filesIn entries

def filesIn : List (String × FileTree) → List (List String × String)
  | [] => []
  | (name, t) :: rest => t.files.map (fun f => (name :: f.1, f.2)) ++ filesIn rest

end

end FileTree

end ProtoTypings
