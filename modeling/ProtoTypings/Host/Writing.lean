import ProtoTypings.Hooks
import ProtoTypings.Host.Basic
import ProtoTypings.Host.Path

namespace ProtoTypings

inductive WriteResult where
  | created
  | replaced
  | unchanged
  deriving DecidableEq, Repr

inductive WriteError where
  | noDirectory (path : String)
  | notWritten (path : String)
  deriving DecidableEq, Repr

def WriteError.message : WriteError → String
  | noDirectory path => "Failed to create " ++ path
  | notWritten path => "Failed to write " ++ path

-- What writing does to a file with the given text, if there is such a file.
def WriteResult.of (before : Option String) (content : String) : WriteResult :=
  match before with
  | none => created
  | some text => if text = content then unchanged else replaced

namespace GeneratedFile

variable {m : Type → Type} [Monad m] [Host m]

-- Makes the directory of a file, if its path names one.
def makeRoom (file : GeneratedFile) : ExceptT WriteError m Unit :=
  match HostPath.parent? file.path with
  | none | some "" => pure ()
  | some directory => do
    unless ← Host.createDirectories directory do
      throw (.noDirectory directory)

def write (file : GeneratedFile) : ExceptT WriteError m WriteResult := do
  let result := WriteResult.of (← Host.readText file.path) file.content
  if result = .unchanged then return result
  file.makeRoom
  unless ← Host.writeText file.path file.content do
    throw (.notWritten file.path)
  return result

end GeneratedFile

end ProtoTypings
