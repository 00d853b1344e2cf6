import ClientGen.Error
import ClientGen.Json.Basic

/-!
# Shapes

The vertices of a model: structures, unions, collections, enumerations, simple types, operations
and services, each with its traits.
-/

namespace ClientGen

/-- The traits applied to a shape or member, in declaration order. -/
structure Traits where
  entries : List (ShapeId × Json) := []
deriving Inhabited

namespace Traits

def get? (t : Traits) (id : ShapeId) : Option Json :=
  (t.entries.find? fun e => e.1 == id).map (·.2)

def has (t : Traits) (id : ShapeId) : Bool := (t.get? id).isSome

def insertEntry (id : ShapeId) (value : Json) : List (ShapeId × Json) → List (ShapeId × Json)
  | [] => [(id, value)]
  | (k, v) :: rest => if k == id then (k, value) :: rest else (k, v) :: insertEntry id value rest

/-- Adds a trait, or replaces its value where it stands. -/
def insert (t : Traits) (id : ShapeId) (value : Json) : Traits :=
  ⟨insertEntry id value t.entries⟩

def ids (t : Traits) : List ShapeId := t.entries.map (·.1)

end Traits

/-! ### The traits of the prelude that generation looks at -/

namespace TraitId

def documentation : ShapeId := .prelude "documentation"
def enumeration : ShapeId := .prelude "enum"
def enumValue : ShapeId := .prelude "enumValue"
def error : ShapeId := .prelude "error"
def auth : ShapeId := .prelude "auth"
def authDefinition : ShapeId := .prelude "authDefinition"
def protocolDefinition : ShapeId := .prelude "protocolDefinition"
def required : ShapeId := .prelude "required"
def default : ShapeId := .prelude "default"
def definition : ShapeId := .prelude "trait"
def unitType : ShapeId := .prelude "unitType"
def http : ShapeId := .prelude "http"

end TraitId

/-- The documentation text, if it is a text. -/
def Traits.documentation (t : Traits) : Option String :=
  (t.get? TraitId.documentation).bind Json.text?

/-- The trait's value as a list of texts; `none` without the trait. -/
def Traits.texts? (t : Traits) (id : ShapeId) : Except Error (Option (List String)) :=
  match t.get? id with
  | none => .ok none
  | some (.arr items) =>
    match items.mapM Json.text? with
    | some texts => .ok (some texts)
    | none => .error (.model (.traitValue id "expected a list of strings"))
  | some _ => .error (.model (.traitValue id "expected a list of strings"))

/-- The simple types, enumerations of texts apart. -/
inductive Scalar where
  | blob
  | boolean
  | string
  | byte
  | short
  | integer
  | long
  | float
  | double
  | bigInteger
  | bigDecimal
  | timestamp
  | document
deriving DecidableEq, Repr

namespace Scalar

/-- The simple type with the given name in a document. -/
def ofTypeName? (name : String) : Option Scalar :=
  match name with
  | "blob" => some .blob
  | "boolean" => some .boolean
  | "string" => some .string
  | "byte" => some .byte
  | "short" => some .short
  | "integer" => some .integer
  | "intEnum" => some .integer
  | "long" => some .long
  | "float" => some .float
  | "double" => some .double
  | "bigInteger" => some .bigInteger
  | "bigDecimal" => some .bigDecimal
  | "timestamp" => some .timestamp
  | "document" => some .document
  | _ => none

/-- The type's part of the names of reader and writer methods. -/
def methodSuffix : Scalar → String
  | .blob => "blob"
  | .boolean => "boolean"
  | .string => "string"
  | .byte => "byte"
  | .short => "short"
  | .integer => "integer"
  | .long => "long"
  | .float => "float"
  | .double => "double"
  | .bigInteger => "big_integer"
  | .bigDecimal => "big_decimal"
  | .timestamp => "timestamp"
  | .document => "document"

end Scalar

structure Member where
  id : ShapeId
  target : ShapeId
  traits : Traits := {}
deriving Inhabited

namespace Member

def name (m : Member) : String := m.id.member.getD ""

def isRequired (m : Member) : Bool := m.traits.has TraitId.required

def default? (m : Member) : Option Json := m.traits.get? TraitId.default

end Member

/-- A constant of an enumeration. -/
structure EnumValue where
  name : String
  value : String
  documentation : Option String := none
deriving DecidableEq, Repr

structure Operation where
  input : Option ShapeId := none
  output : Option ShapeId := none
  errors : List ShapeId := []
deriving DecidableEq, Repr

structure Service where
  version : Option String := none
  operations : List ShapeId := []
  errors : List ShapeId := []
deriving DecidableEq, Repr

inductive Kind where
  | struct (members : List Member)
  | union (members : List Member)
  | list (member : Member)
  | set (member : Member)
  | map (key value : Member)
  | enumeration (values : List EnumValue)
  | scalar (type : Scalar)
  | operation (operation : Operation)
  | service (service : Service)
deriving Inhabited

namespace Kind

/-- The members of aggregates and collections, in declaration order. -/
def members : Kind → List Member
  | .struct ms => ms
  | .union ms => ms
  | .list m => [m]
  | .set m => [m]
  | .map k v => [k, v]
  | _ => []

/-- The ids that the shape refers to, in declaration order. -/
def references : Kind → List ShapeId
  | .operation op => op.input.toList ++ op.output.toList ++ op.errors
  | .service s => s.operations ++ s.errors
  | kind => kind.members.map (·.target)

/-- The member that holds a collection's values. -/
def element? : Kind → Option Member
  | .list m => some m
  | .set m => some m
  | .map _ v => some v
  | _ => none

/-- The kind as documents and messages name it. -/
def typeName : Kind → String
  | .struct _ => "structure"
  | .union _ => "union"
  | .list _ => "list"
  | .set _ => "set"
  | .map _ _ => "map"
  | .enumeration _ => "enum"
  | .scalar _ => "scalar"
  | .operation _ => "operation"
  | .service _ => "service"

end Kind

structure Shape where
  id : ShapeId
  kind : Kind
  traits : Traits := {}
deriving Inhabited

namespace Shape

def isError (s : Shape) : Bool := s.traits.has TraitId.error

/-- Shapes that define a trait; nothing is generated for them. -/
def isTraitDefinition (s : Shape) : Bool := s.traits.has TraitId.definition

def isTimestamp (s : Shape) : Bool :=
  match s.kind with
  | .scalar .timestamp => true
  | _ => false

def members (s : Shape) : List Member := s.kind.members

def references (s : Shape) : List ShapeId := s.kind.references

def member? (s : Shape) (name : String) : Option Member :=
  s.members.find? fun m => m.name == name

end Shape

namespace Prelude

/-- The type of nothing: a structure without members. -/
def unit : ShapeId := .prelude "Unit"

/-- The simple types of the prelude by name. -/
def scalars : List (String × Scalar) := [
  ("Blob", .blob),
  ("Boolean", .boolean),
  ("PrimitiveBoolean", .boolean),
  ("String", .string),
  ("Byte", .byte),
  ("PrimitiveByte", .byte),
  ("Short", .short),
  ("PrimitiveShort", .short),
  ("Integer", .integer),
  ("PrimitiveInteger", .integer),
  ("Long", .long),
  ("PrimitiveLong", .long),
  ("Float", .float),
  ("PrimitiveFloat", .float),
  ("Double", .double),
  ("PrimitiveDouble", .double),
  ("BigInteger", .bigInteger),
  ("BigDecimal", .bigDecimal),
  ("Timestamp", .timestamp),
  ("Document", .document)]

def unitShape : Shape :=
  { id := unit, kind := .struct [], traits := ⟨[(TraitId.unitType, .obj [])]⟩ }

/-- The prelude shape with the given id. -/
def shape? (id : ShapeId) : Option Shape :=
  if id == unit then some unitShape
  else if id.isPrelude && !id.isMember then
    (scalars.find? fun e => e.1 == id.name).map fun e => { id, kind := .scalar e.2 }
  else none

end Prelude

end ClientGen
