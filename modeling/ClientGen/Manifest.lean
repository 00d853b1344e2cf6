import ClientGen.Dictionary
import ClientGen.Path

/-!
# File manifests

The files of a package by path, in the order of paths. Paths that denote the same file are one key;
the spelling that came first stays.
-/

namespace ClientGen

/-- A path with what it denotes, which decides its order. -/
structure Location where
  path : Path
  components : List Path.Component
  components_eq : components = path.components

namespace Location

def ofPath (path : Path) : Location := ⟨path, path.components, rfl⟩

instance : Ord Location := ⟨fun a b => Path.compareComponents a.components b.components⟩

end Location

structure Manifest where
  files : Dictionary Location String := []

namespace Manifest

/-- Puts a file, in place of the one that the path denotes if there is one. -/
def write (m : Manifest) (path : Path) (contents : String) : Manifest :=
  ⟨Dictionary.insert (.ofPath path) contents m.files⟩

def has (m : Manifest) (path : Path) : Bool := Dictionary.has (.ofPath path) m.files

def get? (m : Manifest) (path : Path) : Option String := Dictionary.get? (.ofPath path) m.files

/-- The files with their paths as spelled. -/
def entries (m : Manifest) : List (Path × String) := m.files.map fun (l, s) => (l.path, s)

def paths (m : Manifest) : List Path := m.files.map fun (l, _) => l.path

/-- The file that makes a directory a Python package. -/
def initName : Path := ⟨"__init__.py"⟩

def isPython (path : Path) : Bool := path.extension? == some "py"

/-- The directories that hold Python files, at any depth, each once. -/
def pythonDirectories (m : Manifest) : List Path :=
  ((m.paths.filter isPython).flatMap Path.ancestors).eraseDups

/-- Adds an empty file that makes the directory a package, unless it has one. -/
def addInit (m : Manifest) (dir : Path) : Manifest :=
  ⟨Dictionary.insertNew (.ofPath (dir.join initName)) "" m.files⟩

/-- Makes every directory that holds Python files a package. -/
def addInitFiles (m : Manifest) : Manifest := m.pythonDirectories.foldl addInit m

end Manifest

end ClientGen
