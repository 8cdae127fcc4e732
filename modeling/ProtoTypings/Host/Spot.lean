import ProtoTypings.Host.FileTree

namespace ProtoTypings

structure Spot where
  -- the names on the way from the root, the nearest first
  names : List String := []
  here : FileTree
  -- the directories on the way, the nearest first
  above : List FileTree := []

namespace Spot

variable (s : Spot)

def place : List String :=
  s.names.reverse

-- There is nothing above the root, so from there the way up leads nowhere else.
def up : Spot :=
  match s.names, s.above with
  | _ :: names, parent :: above => { names, here := parent, above }
  | _, _ => s

def into (name : String) (tree : FileTree) : Spot :=
  { names := name :: s.names, here := tree, above := s.here :: s.above }

-- What has a name in the directory.
def child? (name : String) : Option FileTree :=
  s.here.get? [name]

def down? (name : String) : Option Spot :=
  match s.child? name with
  | some (.directory entries) => some (s.into name (.directory entries))
  | _ => none

-- Follows a segment of a path.
def enter? (segment : String) : Option Spot :=
  if segment = "" ∨ segment = "." then some s
  else if segment = ".." then some s.up
  else s.down? segment

def enterAll? (segments : List String) : Option Spot :=
  segments.foldlM enter? s

-- The spot at a place. A directory that is not there is taken for an empty one.
def ofPlace (root : FileTree) (place : List String) : Spot :=
  place.foldl (fun s name => (s.down? name).getD (s.into name (.directory []))) { here := root }

end Spot

end ProtoTypings
