import ClientGen.Disk.Basic
import ClientGen.Model.Assembly
import ClientGen.Source

/-!
# Models from files

The documents of a model's sources are read one after another and merged. A directory stands for
the `.json` files in it, at any depth, in the order of their paths.
-/

namespace ClientGen

namespace Disk

variable {m : Type → Type} [Monad m] [MonadDisk m]

/-- A failed operation on files is an error of the run. -/
def orFail (error : DiskFault → DiskError) (run : m (Except DiskFault α)) : ExceptT Error m α :=
  ExceptT.mk do return (← run).mapError fun fault => .disk (error fault)

/-- The files in a directory that `keep` accepts, at any depth up to the bound. No file lies deeper
than its path is long. -/
def filesWithin (keep : Path → Bool) : Nat → Path → ExceptT Error m (List Path)
  | 0, _ => return []
  | depth + 1, dir => do
    let names ← orFail .listing (MonadDisk.list dir)
    let found ← names.mapM fun name => do
      let path := dir.join ⟨name⟩
      if ← (isDirectory path : m Bool) then filesWithin keep depth path
      else return if keep path then [path] else []
    return found.flatten

end Disk

namespace Source

variable {m : Type → Type} [Monad m] [MonadDisk m]

def isDocument (path : Path) : Bool := path.extension? == some "json"

/-- The documents at a path: the file itself, or those in the directory. -/
def documents (path : Path) : ExceptT Error m (List Path) := do
  match ← (MonadDisk.kind? path : m _) with
  | none => throw (.missingFile (.source path.text))
  | some .file => return [path]
  | some .directory =>
    let found ← Disk.filesWithin isDocument Disk.maxPath path
    return found.mergeSort fun a b => (compare a b).isLE

def pushFile (a : Assembly) (path : Path) : ExceptT Error m Assembly := do
  let text ← Disk.orFail (.reading path.text) (Disk.readText path)
  match a.push text with
  | .ok a => return a
  | .error e => throw (.inFile path.text e)

def pushPath (a : Assembly) (path : Path) : ExceptT Error m Assembly := do
  let files ← documents path
  files.foldlM pushFile a

/-- The model that sources make up. Relative paths are relative to `base`. -/
def loadModel (sources : List Source) (base : Path) : ExceptT Error m Model := do
  let assembly ← (sources.flatMap (paths base)).foldlM pushPath {}
  ExceptT.mk (pure assembly.finish)

end Source

end ClientGen
