import ClientGen.Symbol.Table

/-!
# Decorations

Changes to the symbols that a provider makes: helpers added to the symbols of given ids, new names
for them, and a text in front of every attribute.
-/

namespace ClientGen

/-- Changes to symbols, by the text of their ids. -/
structure Decoration where
  /-- New names. -/
  names : List (String × String) := []
  /-- Helpers to add, by role. -/
  properties : List (String × List (String × Symbol)) := []
  /-- A text in front of the attributes of members. -/
  attributePrefix : String := ""

namespace Decoration

def added (d : Decoration) (id : ShapeId) : List (String × Symbol) :=
  ((d.properties.find? fun e => e.1 == id.text).map (·.2)).getD []

def newName? (d : Decoration) (id : ShapeId) : Option String :=
  (d.names.find? fun e => e.1 == id.text).map (·.2)

/-- The symbol with its added helpers. A symbol under a new name keeps its module, file, helpers
and references; it has no other name and no dependencies. -/
def apply (d : Decoration) (id : ShapeId) (s : Symbol) : Symbol :=
  let s := (d.added id).foldl (fun s (role, helper) => s.withProperty role helper) s
  match d.newName? id with
  | some name =>
    { name, ns := s.ns, file := s.file, properties := s.properties, references := s.references }
  | none => s

/-- The provider with the changes made after its own. -/
def provider (d : Decoration) (p : Provider) : Provider where
  package := p.package
  decorate := fun id s => d.apply id (p.decorate id s)
  memberName := fun name => d.attributePrefix ++ p.memberName name

end Decoration

end ClientGen
