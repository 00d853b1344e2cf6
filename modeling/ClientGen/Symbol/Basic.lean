import ClientGen.Dictionary
import ClientGen.Error

/-!
# Symbols

The Python identity of a shape or helper: what it is called, the module that holds it, and the
symbols that come with it.
-/

namespace ClientGen

/-- A package that generated code needs, with a version requirement. -/
structure Dependency where
  package : String
  version : String
deriving DecidableEq, Ord, Repr

/-- A Python name in a module. With the empty module it is a builtin. -/
structure Symbol where
  name : String
  /-- The module that holds the name. -/
  ns : String
  /-- What the name is called where it is imported. -/
  localName : Option String := none
  /-- The generated file that declares the name. -/
  file : Option String := none
  /-- Helpers that go with the symbol, by role. -/
  properties : List (String × Symbol) := []
  /-- Symbols that the name is made of. -/
  references : List Symbol := []
  dependencies : List Dependency := []
deriving Inhabited

namespace Symbol

/-! ### Roles of helpers -/

/-- The constant that holds the shape's schema. -/
def schemaRole : String := "schema"

/-- The class that reads a union, or the function that reads a collection. -/
def deserializerRole : String := "deserializer"

/-- The function that writes a collection. -/
def serializerRole : String := "serializer"

/-- The class of a union's values that are not known. -/
def unknownRole : String := "unknown"

def builtin (name : String) : Symbol := { name, ns := "" }

def isBuiltin (s : Symbol) : Bool := s.ns.isEmpty

def importedName (s : Symbol) : String := s.localName.getD s.name

/-- The name after the module. -/
def fullName (s : Symbol) : String := if s.isBuiltin then s.name else s.ns ++ "." ++ s.name

def withProperty (s : Symbol) (role : String) (helper : Symbol) : Symbol :=
  { s with properties := Dictionary.insert role helper s.properties }

def withReference (s : Symbol) (other : Symbol) : Symbol :=
  { s with references := s.references ++ [other] }

/-- Adds a dependency unless it is there. -/
def withDependency (s : Symbol) (d : Dependency) : Symbol :=
  if s.dependencies.contains d then s else { s with dependencies := s.dependencies ++ [d] }

def property? (s : Symbol) (role : String) : Option Symbol := Dictionary.get? role s.properties

def property (s : Symbol) (role : String) : Except Error Symbol :=
  match s.property? role with
  | some helper => .ok helper
  | none => .error (.other (.missingProperty s.fullName role))

/-- The names that a generated file declares for the symbol: its own and those of its helpers. -/
def declarations (s : Symbol) : List (String × String) :=
  ((s :: s.properties.map (·.2)).filter fun d => d.file.isSome).map fun d => (d.ns, d.name)

end Symbol

end ClientGen
