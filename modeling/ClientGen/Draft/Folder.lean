import ClientGen.Draft.Run
import ClientGen.Manifest

/-!
# Folders of drafts

One draft per file. A file is created when it is first edited; nothing is rendered before all edits
are done.
-/

namespace ClientGen

/-- A script for the file at a path, which is the module `ns`. -/
structure Edit where
  path : String
  ns : String
  script : Script

/-- A script for the file that declares a symbol. -/
def Symbol.edit (s : Symbol) (script : Script) : Except Error Edit :=
  match s.file with
  | some path => .ok { path, ns := s.ns, script }
  | none => .error (.draft (.undeclared s.fullName))

/-- The files of a package that are being written, by path. -/
structure Folder where
  package : String
  registry : Registry := []
  drafts : Dictionary String Draft := []

namespace Folder

def has (f : Folder) (path : String) : Bool := Dictionary.has path f.drafts

/-- Carries out an edit; what it wrote before it failed stays. -/
def apply (f : Folder) (e : Edit) : Except Error Unit × Folder :=
  let draft := (Dictionary.get? e.path f.drafts).getD { ns := e.ns, package := f.package }
  if draft.ns != e.ns then (.error (.draft (.wrongModule e.path draft.ns e.ns)), f)
  else
    let (result, draft) := (Script.run f.registry e.script).run draft
    (result, { f with drafts := Dictionary.insert e.path draft f.drafts })

/-- Carries out edits in turn, up to the first that fails. -/
def applyAll (f : Folder) : List Edit → Except Error Folder
  | [] => .ok f
  | e :: rest =>
    match f.apply e with
    | (.ok _, f) => applyAll f rest
    | (.error err, _) => .error err

/-- The dependencies of all drafts, in order. -/
def dependencies (f : Folder) : List Dependency :=
  (f.drafts.flatMap fun d => d.2.dependencies).foldl (fun acc d => insertSorted d acc) []

/-- Renders every draft into a manifest. -/
def flush (f : Folder) (m : Manifest) : Manifest :=
  f.drafts.foldl (fun m (path, draft) => m.write ⟨path⟩ draft.render) m

end Folder

end ClientGen
