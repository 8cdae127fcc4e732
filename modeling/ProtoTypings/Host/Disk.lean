import ProtoTypings.Host.Basic
import ProtoTypings.Host.Path
import ProtoTypings.Host.Spot

namespace ProtoTypings

structure Disk where
  root : FileTree := .directory []
  -- The place of the working directory, which may have been removed. What is above it can still be
  -- reached from there.
  current : List String := []

namespace Disk

-- A path that can be looked up: there is something in it, it has no null character, and it takes less
-- than 4096 bytes.
def isUsable (path : String) : Bool :=
  path ≠ "" && !path.toList.contains '\x00' && path.utf8ByteSize < 4096

-- A name that an entry can have.
def isName (segment : String) : Bool :=
  segment ≠ "" && segment ≠ "." && segment ≠ ".." && segment.utf8ByteSize ≤ 255

variable (d : Disk)

-- The spot that a path starts from.
def start (path : String) : Spot :=
  .ofPlace d.root (if HostPath.isAbsolute path then [] else d.current)

-- The directory of a path.
def directory? (path : String) : Option Spot :=
  if isUsable path then (d.start path).enterAll? (Text.cut '/' path) else none

-- Whether the directory of a spot is on the disk, and not removed.
def holds (s : Spot) : Bool :=
  (d.root.get? s.place).any FileTree.isDirectory

-- The directory that a path has a name in, and the name. A path that ends in a slash or in dots has
-- none.
def site? (path : String) : Option (Spot × String) :=
  match (Text.cut '/' path).reverse with
  | name :: above =>
    if isUsable path ∧ isName name then
      ((d.start path).enterAll? above.reverse).map (·, name)
    else none
  | [] => none

def readText (path : String) : Option String :=
  match d.site? path with
  | some (s, name) => (s.child? name).bind FileTree.content?
  | none => none

def isDirectory (path : String) : Bool :=
  (d.directory? path).isSome

-- Goes along segments and makes the directories that are not there. Those that were made stay even if
-- another one fails.
def makeWay (d : Disk) (s : Spot) : (segments : List String) → Bool × Disk
  | [] => (true, d)
  | segment :: rest =>
    match s.enter? segment with
    | some next => makeWay d next rest
    | none =>
      if isName segment ∧ (s.child? segment).isNone ∧ d.holds s then
        let root := d.root.insert s.place segment (.directory [])
        makeWay { d with root } (.ofPlace root (s.place ++ [segment])) rest
      else (false, d)

def createDirectories (path : String) : Bool × Disk :=
  if isUsable path then d.makeWay (d.start path) (Text.cut '/' path) else (false, d)

def writeText (path content : String) : Bool × Disk :=
  match d.site? path with
  | none => (false, d)
  | some (s, name) =>
    if d.holds s ∧ (s.down? name).isNone then
      (true, { d with root := d.root.insert s.place name (.file content) })
    else (false, d)

-- Takes an empty directory away by its path. There is nothing to do if the path led through what the
-- directory held; otherwise the path has to end in a name.
def dropDirectory (path : String) : Bool × Disk :=
  match ((Text.cut '/' path).filter (· ≠ "")).reverse with
  | [] => (false, d)
  | name :: above =>
    match (d.start path).enterAll? above.reverse with
    | none => (true, d)
    | some s =>
      if isName name then (true, { d with root := d.root.erase s.place name }) else (false, d)

-- Removes what a directory holds, and then the directory.
def removeDirectory (path : String) : Bool × Disk :=
  match d.directory? path with
  | none => (false, d)
  | some s => dropDirectory { d with root := d.root.clear s.place } path

-- The files below a directory, by their paths from there.
def filesBelow (place : List String) : List (String × String) :=
  match d.root.get? place with
  | some (.directory entries) => (FileTree.filesIn entries).map fun f => ("/".intercalate f.1, f.2)
  | _ => []

end Disk

-- The state of a host that works in memory.
structure Session where
  disk : Disk := {}
  time : Timestamp := ⟨0, 0⟩
  log : List Event := []

namespace Session

-- Does something to the disk that may fail.
def change (f : Disk → Bool × Disk) : StateM Session Bool := fun s =>
  let (done, disk) := f s.disk
  (done, { s with disk })

end Session

instance : Host (StateM Session) where
  readText path := fun s => (s.disk.readText path, s)
  isFile path := fun s => ((s.disk.readText path).isSome, s)
  isDirectory path := fun s => (s.disk.isDirectory path, s)
  createDirectories path := Session.change (·.createDirectories path)
  writeText path content := Session.change (·.writeText path content)
  removeDirectory path := Session.change (·.removeDirectory path)
  workingDirectory := fun s => (some ("/" ++ "/".intercalate s.disk.current), s)
  now := fun s => (s.time, s)
  note event := fun s => ((), { s with log := s.log ++ [event] })

end ProtoTypings
