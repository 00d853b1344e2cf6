import ClientGen.Model.Basic
import ClientGen.Symbol.Library
import ClientGen.Text.Case

/-!
# Names of generated code

How shapes and members are named in Python, and the symbol of each shape that needs no other
shape's symbol.

* `Naming.memberName` and `Naming.className`: the styles of attributes and classes, with an
  underscore after a name that is taken.
-/

namespace ClientGen.Naming

def keywords : List String := [
  "False", "None", "True", "and", "as", "assert", "async", "await", "break", "class",
  "continue", "def", "del", "elif", "else", "except", "finally", "for", "from", "global", "if",
  "import", "in", "is", "lambda", "nonlocal", "not", "or", "pass", "raise", "return", "try",
  "while", "with", "yield"]

/-- Names that generated modules import, which no class may take. -/
def reservedClassNames : List String := [
  "Any", "ApiError", "Callable", "Config", "Decimal", "Document", "Literal", "Schema", "Self",
  "Sequence", "SerializationError", "ServiceError", "ShapeDeserializer", "ShapeID",
  "ShapeSerializer", "ShapeType", "StrEnum", "Trait", "UnknownApiError"]

def memberName (name : String) : String :=
  let snake := Text.snakeCase name
  if keywords.contains snake || snake == "self" then snake ++ "_" else snake

def className (name : String) : String :=
  let pascal := Text.pascalCase name
  if keywords.contains pascal || reservedClassNames.contains pascal then pascal ++ "_" else pascal

/-! ### Modules of the package -/

def modelsModule : String := "models"
def schemasModule : String := "_private.schemas"
def clientModule : String := "client"

/-- A name declared in a module of the package. -/
def declared (package name submodule : String) : Symbol where
  name := name
  ns := package ++ "." ++ submodule
  file := some (package ++ "/" ++ Text.replaceChar '.' '/' submodule ++ ".py")

def modelClass (package name : String) : Symbol := declared package name modelsModule

/-- The constant that holds the schema of a shape. Prelude shapes have theirs ready. -/
def schema (package : String) (id : ShapeId) : Symbol :=
  let constant := Text.screamingCase id.name
  if id.isPrelude then Library.preludeSchema constant
  else { declared package constant schemasModule with
    localName := some ("_SCHEMA_" ++ constant)
    dependencies := [Library.dependency Library.corePackage] }

/-- The Python type of a simple type. -/
def scalar : Scalar → Symbol
  | .string => .builtin "str"
  | .blob => .builtin "bytes"
  | .boolean => .builtin "bool"
  | .byte | .short | .integer | .long | .bigInteger => .builtin "int"
  | .float | .double => .builtin "float"
  | .bigDecimal => Library.decimal
  | .timestamp => Library.datetime
  | .document => Library.document

/-- The variant of a union for one of its members. -/
def variant (package : String) (union : ShapeId) (member : String) : Symbol :=
  modelClass package (className union.name ++ Text.pascalCase member)

/-- Follows collections to their values; `seen` are the ids passed, `fuel` bounds their number. -/
def convertsWithin (m : Model) : Nat → List ShapeId → ShapeId → Except Error Bool
  | 0, _, target => .error (.invalidModel (.selfContaining target))
  | fuel + 1, seen, target =>
    if seen.contains target then .error (.invalidModel (.selfContaining target))
    else do
      let shape ← m.expect target
      match shape.kind with
      | .struct _ | .union _ | .enumeration _ => return true
      | kind =>
        match kind.element? with
        | some element => convertsWithin m fuel (target :: seen) element.target
        | none => return false

/-- Do values of the target, or the values inside its collections, need conversion to and from
plain Python values? Each collection passed has one element target, so the chain of targets
repeats itself if it is longer than the list of shapes. -/
def needsConversion (m : Model) (target : ShapeId) : Except Error Bool :=
  convertsWithin m (m.shapes.length + 2) [] target

/-- A collection's type, with its helpers. -/
def collection (package : String) (m : Model) (id : ShapeId) (name : String) (element : Symbol)
    (elementTarget : ShapeId) : Except Error Symbol := do
  let type := ((Symbol.builtin name).withReference element).withProperty Symbol.schemaRole
    (schema package id)
  if ← needsConversion m elementTarget then
    let snake := Text.snakeCase id.name
    return (type.withProperty Symbol.serializerRole (modelClass package ("_serialize_" ++ snake)))
      |>.withProperty Symbol.deserializerRole (modelClass package ("_deserialize_" ++ snake))
  else return type

/-- The class of a structure or enumeration. -/
def valueClass (package : String) (id : ShapeId) : Symbol :=
  (modelClass package (className id.name)).withProperty Symbol.schemaRole (schema package id)

/-- The type of a union, with its helpers. -/
def unionType (package : String) (id : ShapeId) : Symbol :=
  let name := className id.name
  (modelClass package name).withProperty Symbol.schemaRole (schema package id)
    |>.withProperty Symbol.deserializerRole (modelClass package ("_" ++ name ++ "Deserializer"))
    |>.withProperty Symbol.unknownRole (modelClass package (name ++ "Unknown"))

def operationMethod (package : String) (id : ShapeId) : Symbol :=
  declared package (Text.snakeCase id.name) clientModule

def serviceClient (package : String) (id : ShapeId) : Symbol :=
  declared package (className id.name ++ "Client") clientModule

end ClientGen.Naming
