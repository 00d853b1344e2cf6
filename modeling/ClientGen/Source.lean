import ClientGen.Path

/-!
# Model sources

Where the documents of a model are: a path, and under it single files if they are listed.
-/

namespace ClientGen

/-- A file or directory that holds documents of a model. -/
structure Source where
  path : Path
  /-- Paths under `path`; if there are none, `path` itself is meant. -/
  files : List String := []
deriving DecidableEq, Repr

namespace Source

def display (s : Source) : String := "path(" ++ s.path.text ++ ")"

/-- The paths that a source stands for. Relative ones are relative to `base`. -/
def paths (base : Path) (s : Source) : List Path :=
  let top := base.join s.path
  if s.files.isEmpty then [top] else s.files.map fun file => top.join ⟨file⟩

end Source

end ClientGen
