import ProtoTypings.Text.Affix

namespace ProtoTypings.HostPath

-- Drops empty segments and single dots from the front of a list, but never its last segment.
def settle : List String → List String
  | s :: t :: rest => if s = "" ∨ s = "." then settle (t :: rest) else s :: t :: rest
  | segments => segments

-- The path of the directory that a path stands in. A single name stands in the empty path, and
-- nothing stands above the root or the empty path.
def parent? (path : String) : Option String :=
  match settle (Text.cut '/' path).reverse with
  | [] | [""] => none
  | _ :: above =>
    match settle above with
    | [""] => some "/"
    | above => some ("/".intercalate above.reverse)

def climb : (steps : Nat) → String → List String
  | 0, _ => []
  | steps + 1, path =>
    path :: match parent? path with
      | some above => climb steps above
      | none => []

-- The path itself and all above it, the nearest first. Each is shorter than the one before.
def ancestors (path : String) : List String :=
  climb (path.length + 1) path

def isAbsolute (path : String) : Bool :=
  path.toList.head? = some '/'

-- The path of `name` in a directory.
def join (directory name : String) : String :=
  if isAbsolute name ∨ directory = "" then name
  else if directory.toList.getLast? = some '/' then directory ++ name
  else directory ++ "/" ++ name

end ProtoTypings.HostPath
