import ClientGen.Job.Basic
import ClientGen.Package.Generation
import ClientGen.PostProcess

/-!
# Running jobs

* `Manifest.writeTo`: puts the files of a package into a directory.
* `Job.run`: reads the model, generates the package, writes it, and post-processes it. Nothing is
  written unless all of the package could be generated.
-/

namespace ClientGen

/-- The files of a package and the paths that they were written to. -/
structure Generated where
  files : Manifest
  written : List Path

section

variable {m : Type → Type} [Monad m] [MonadDisk m]

/-- Writes a file below a directory, which is made if it is missing. -/
def Manifest.writeFile (dir : Path) (file : Path × String) : ExceptT Error m Path := do
  let path := dir.join file.1
  if let some holder := path.parent? then
    Disk.orFail (.creatingDirectory holder.text) (Disk.makeDirectories holder)
  Disk.orFail (.writing path.text) (MonadDisk.write path file.2)
  return path

/-- Writes all files below a directory and returns their paths. -/
def Manifest.writeTo (files : Manifest) (dir : Path) : ExceptT Error m (List Path) :=
  files.entries.mapM (writeFile dir)

/-- Runs a job. The package goes to the directory given, else to that of the settings. -/
def Job.run [MonadProgram m] (extra : List Integration) (job : Job) (outputDir : Option Path)
    (post : Bool) : ExceptT Error m Generated := do
  let model ← Source.loadModel job.sources job.base
  let files ← ExceptT.mk (pure (Package.generate extra model job.settings))
  let dir := job.outputDir outputDir
  let written ← files.writeTo dir
  if post then postProcess job.settings (dir.join ⟨job.settings.module⟩)
  return { files, written }

end

end ClientGen
