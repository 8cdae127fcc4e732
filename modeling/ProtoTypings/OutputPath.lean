import ProtoTypings.Text.Affix

namespace ProtoTypings.OutputPath

-- The extension of generated files, with its dot.
def extension : String := ".ts"

-- The extension of schema files, with its dot.
def sourceExtension : String := ".proto"

-- The file that exports everything that the others declare.
def indexFile : String := "index.ts"

-- Where a type goes whose schema file is not known.
def unknownFile : String := "proto2ts_unknown_file_name.ts"

-- The path with `/` for every `\`.
def slashed (path : String) : String :=
  String.ofList (path.toList.map fun c => if c = '\\' then '/' else c)

-- The part of `path` below `root`, or all of `path` if it is not below `root`. Both have `/` as
-- their separator, and `root` does not end in one.
def below (root path : String) : String :=
  match Text.stripFront? root path with
  | some rest =>
    if root ≠ "" ∧ (rest = "" ∨ rest.toList.head? = some '/') then rest else path
  | none => path

-- The generated file for a schema file, relative to the output root.
def ofSource (inputRoot source : String) : String :=
  let root := Text.dropBack '/' (slashed inputRoot)
  let relative := Text.dropFront '/' (below root (slashed source))
  (Text.stripBack? sourceExtension relative).getD relative ++ extension

-- The path without the extension of generated files.
def stem (path : String) : String :=
  (Text.stripBack? extension path).getD path

-- The schema file that a generated file stands for.
def toSource (path : String) : String :=
  stem path ++ sourceExtension

-- The path of a generated file under the output root.
def under (root relative : String) : String :=
  let root := slashed root
  let relative := Text.dropFront '/' relative
  if root ≠ "" ∧ root.toList.all (· == '/') then "/" ++ relative
  else
    let root := Text.dropBack '/' root
    let root := (Text.stripFront? "./" root).getD root
    if root = "" ∨ root = "." then relative else root ++ "/" ++ relative

-- The names of the directories that lead to a file.
def directory (path : String) : List String :=
  ((Text.cut '/' path).filter (· ≠ "")).dropLast

-- What follows the last `/` of a path.
def fileName (path : String) : String :=
  (Text.cut '/' path).getLast?.getD path

-- How many segments two directories have in common in front.
def shared : List String → List String → Nat
  | a :: as, b :: bs => if a = b then shared as bs + 1 else 0
  | _, _ => 0

-- The segments that lead from one directory to a file in another.
def route (fromDir toDir : List String) (file : String) : List String :=
  let common := shared fromDir toDir
  List.replicate (fromDir.length - common) ".." ++ toDir.drop common ++ [file]

-- The module specifier by which the file `source` imports from the file `target`.
def specifier (source target : String) : String :=
  let joined := "/".intercalate (route (directory source) (directory target)
    (stem (fileName target)))
  if (Text.stripFront? ".." joined).isSome then joined else "./" ++ joined

end ProtoTypings.OutputPath
