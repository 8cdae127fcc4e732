import ProtoTypings.Command.Error
import ProtoTypings.Command.Report
import ProtoTypings.Generation
import ProtoTypings.Inputs

namespace ProtoTypings

structure GenerateOptions where
  schema : String
  -- whether the output directory is removed first
  clean : Bool := false
  -- whether the files are shown instead of written
  dryRun : Bool := false
  deriving DecidableEq, Repr

namespace GenerateOptions

variable {m : Type → Type} [Monad m] [Host m]

-- The files of a schema, as they are generated at this time.
def files (options : GenerateOptions) (s : Settings) :
    ExceptT CommandError m (List GeneratedFile) := do
  let graph ← (Graph.load options.schema).adapt (.schema options.schema)
  let run : Generation := { graph, settings := s, time := ← Host.now }
  run.files.events.forM Host.note
  MonadExcept.ofExcept (run.files.result.mapError .generation)

-- Removes the output directory if that is asked for and there is one; gives what was removed.
def cleanUp (options : GenerateOptions) (directory : String) :
    ExceptT CommandError m (Option String) := do
  if options.clean then
    if ← Host.isDirectory directory then
      unless ← Host.removeDirectory directory do
        throw (.cleaning directory)
      return some directory
  return none

def writeFile (file : GeneratedFile) : ExceptT CommandError m WrittenFile := do
  return { path := file.path, result := ← file.write.adapt (.writing file.path) }

-- Writes files in their order, up to the first that fails.
def writeFiles : List GeneratedFile → ExceptT CommandError m (List WrittenFile)
  | [] => pure []
  | file :: rest => do
    let written ← writeFile file
    return written :: (← writeFiles rest)

def run (options : GenerateOptions) (s : Settings) : ExceptT CommandError m GenerateReport := do
  let files ← options.files s
  if options.dryRun then return .preview files
  let cleaned ← options.cleanUp s.outputPath
  return .written cleaned (← writeFiles files)

end GenerateOptions

end ProtoTypings
