import ProtoTypings.Event
import ProtoTypings.Timestamp

namespace ProtoTypings

class Host (m : Type → Type) where
  -- the text of a file, if there is one
  readText (path : String) : m (Option String)
  isFile (path : String) : m Bool
  isDirectory (path : String) : m Bool
  -- makes a directory and those above it; tells whether it is there then
  createDirectories (path : String) : m Bool
  -- tells whether the file could be written
  writeText (path content : String) : m Bool
  -- removes a directory with all that it holds; tells whether it is gone then
  removeDirectory (path : String) : m Bool
  workingDirectory : m (Option String)
  now : m Timestamp
  note (event : Event) : m Unit

instance {ε : Type} {m : Type → Type} [Monad m] [Host m] : Host (ExceptT ε m) where
  readText path := ExceptT.lift (Host.readText path)
  isFile path := ExceptT.lift (Host.isFile path)
  isDirectory path := ExceptT.lift (Host.isDirectory path)
  createDirectories path := ExceptT.lift (Host.createDirectories path)
  writeText path content := ExceptT.lift (Host.writeText path content)
  removeDirectory path := ExceptT.lift (Host.removeDirectory path)
  workingDirectory := ExceptT.lift Host.workingDirectory
  now := ExceptT.lift Host.now
  note event := ExceptT.lift (Host.note event)

end ProtoTypings
