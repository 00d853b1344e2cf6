import ClientGen.Symbol.Library

/-!
# Imports of a file

The names and modules that a file imports, and the statements for them in three groups: standard
library, other packages, the file's own package. Within a group whole modules come first; both
kinds are in order of the modules.
-/

namespace ClientGen

/-- A name taken from a module. -/
structure ImportedName where
  name : String
  localName : Option String := none
deriving DecidableEq, Ord, Repr

structure Imports where
  /-- The names taken from each module, both in order. -/
  names : Dictionary String (List ImportedName) := []
  /-- The modules imported whole, in order. -/
  modules : List String := []

namespace Imports

def add (i : Imports) (module : String) (n : ImportedName) : Imports :=
  let before := (Dictionary.get? module i.names).getD []
  { i with names := Dictionary.insert module (insertSorted n before) i.names }

def addModule (i : Imports) (module : String) : Imports :=
  { i with modules := insertSorted module i.modules }

def isEmpty (i : Imports) : Bool := i.names.isEmpty && i.modules.isEmpty

/-- The groups of statements, in order. -/
inductive Group where
  | standard
  | other
  | own
deriving DecidableEq, Repr

def group (package module : String) : Group :=
  if Library.isStandard module then .standard
  else if module == package || (package ++ ".").toList.isPrefixOf module.toList then .own
  else .other

def ImportedName.text (n : ImportedName) : String :=
  match n.localName with
  | some name => n.name ++ " as " ++ name
  | none => n.name

/-- All statements, each with the module it imports from. -/
def statements (i : Imports) : List (String × String) :=
  i.modules.map (fun m => (m, "import " ++ m)) ++
    i.names.map fun (m, ns) =>
      (m, "from " ++ m ++ " import " ++ ", ".intercalate (ns.map ImportedName.text))

/-- The text of all statements, with an empty line between groups. -/
def text (i : Imports) (package : String) : String :=
  let groups := [Group.standard, .other, .own].map fun g =>
    (i.statements.filter fun s => group package s.1 == g).map (·.2)
  "\n\n".intercalate ((groups.filter fun g => !g.isEmpty).map fun g => "\n".intercalate g)

end Imports

end ClientGen
