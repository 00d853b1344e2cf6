import ClientGen.CommandLine

/-!
# The program

The command line on real files. Programs are never started here: each counts as not installed, so
that generated packages stay as they were written.
-/

namespace ClientGen.Main

/-- What went wrong, by the system's own account. -/
def fault : IO.Error → DiskFault
  | .noFileOrDirectory .. => .notFound
  | .permissionDenied .. => .permissionDenied
  | .alreadyExists .. => .exists
  | e => .other (toString e)

/-- Runs an action on files and keeps its failure. -/
def attempt (action : IO α) : IO (Except DiskFault α) := do
  match ← action.toBaseIO with
  | .ok a => return .ok a
  | .error e => return .error (fault e)

instance : MonadDisk IO where
  kind? path := do
    let place := (← IO.currentDir) / path.text
    if ← place.isDir then return some .directory
    else if ← place.pathExists then return some .file
    else return none
  list path := attempt do
    let place := (← IO.currentDir) / path.text
    return (← place.readDir).toList.map fun entry => entry.fileName
  read path := do
    let place := (← IO.currentDir) / path.text
    if ← place.isDir then return .error .isADirectory
    attempt (IO.FS.readBinFile place)
  write path text := do
    let place := (← IO.currentDir) / path.text
    if ← place.isDir then return .error .isADirectory
    attempt (IO.FS.writeFile place text)
  makeDirectory path := attempt (IO.FS.createDir path.text)
  resolve path := attempt do
    let place := (← IO.currentDir) / path.text
    if ← place.pathExists then return ⟨(← IO.FS.realPath place).toString⟩
    else throw (.noFileOrDirectory path.text 2 "")

instance : MonadProgram IO where
  start _ _ := return .error .notFound

end ClientGen.Main

/-- Runs the generator with the arguments of the command line. -/
def main (arguments : List String) : IO UInt32 := do
  let report ← ClientGen.CommandLine.run arguments
  report.output.forM IO.println
  report.errors.forM IO.eprintln
  return report.code.toUInt32
