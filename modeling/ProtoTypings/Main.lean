import Std.Time.DateTime.Timestamp
import ProtoTypings.Command.Run

namespace ProtoTypings

-- Work on this machine. The log has warnings only, unless it is verbose.
structure Console where
  verbose : Bool

abbrev OnMachine := ReaderT Console IO

namespace OnMachine

-- Whether an action succeeds.
def attempt (action : IO Unit) : OnMachine Bool := fun _ => do
  return (← action.toBaseIO).toBool

-- What kind of entry a path leads to.
def entryType? (path : String) : OnMachine (Option IO.FS.FileType) := fun _ => do
  match ← (IO.FS.realPath path).toBaseIO with
  | .error _ => return none
  | .ok real =>
    match ← real.metadata.toBaseIO with
    | .error _ => return none
    | .ok metadata => return some metadata.type

-- Removes what a directory holds, and then the directory by its path, which may have led through what
-- it held. A link to a directory is removed alone.
def removeDirectory (path : String) : IO Unit := do
  if (← (System.mkFilePath [path]).symlinkMetadata).type == .symlink then
    IO.FS.removeFile path
  else
    for entry in ← (← IO.FS.realPath path).readDir do
      if (← entry.path.symlinkMetadata).type == .dir then IO.FS.removeDirAll entry.path
      else IO.FS.removeFile entry.path
    try IO.FS.removeDir path
    catch
      | .noFileOrDirectory .. => pure ()
      | e => throw e

def now : OnMachine Timestamp := fun _ => do
  let time ← Std.Time.Timestamp.now
  let nanos := time.toNanosecondsSinceUnixEpoch.val
  return { seconds := nanos / 1000000000, nanos := (nanos % 1000000000).toNat }

def note (event : Event) : OnMachine Unit := fun console => do
  match event.logLine? with
  | none => return ()
  | some line => if console.verbose || line.level == .warn then IO.eprintln line.text

end OnMachine

open OnMachine in
instance : Host OnMachine where
  readText path := fun _ => do
    match ← (IO.FS.readFile path).toBaseIO with
    | .ok text => return some text
    | .error _ => return none
  isFile path := do return (← entryType? path) == some .file
  isDirectory path := do return (← entryType? path) == some .dir
  createDirectories path := attempt (IO.FS.createDirAll path)
  writeText path content := attempt (IO.FS.writeFile path content)
  removeDirectory path := attempt (removeDirectory path)
  workingDirectory := fun _ => do
    match ← IO.currentDir.toBaseIO with
    | .ok directory => return some directory.toString
    | .error _ => return none
  now := now
  note := note

-- Whether the arguments ask for all of the log.
def isVerbose (args : List String) : Bool :=
  match Invocation.parse args with
  | .ok invocation => invocation.verbose
  | .error _ => false

-- What a failure says on the terminal.
def Failure.lines : Failure → List String
  | .usage error => ["error: " ++ error.message]
  | .command error => (error.message?.toList ++ error.cause?.toList).map ("error: " ++ ·)

end ProtoTypings

open ProtoTypings

def main (args : List String) : IO UInt32 := do
  let outcome ← (runProgram args : OnMachine Outcome) { verbose := isVerbose args }
  IO.print outcome.output
  match outcome.failure with
  | some failure => failure.lines.forM IO.eprintln
  | none => pure ()
  return outcome.status.toUInt32
