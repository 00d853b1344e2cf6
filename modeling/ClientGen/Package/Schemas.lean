import ClientGen.Context
import ClientGen.Package.Literal

/-!
# The schemas module

A constant for the schema of each shape. A recursive shape is declared in two steps: a shell
without members stands before all other schemas, and the members are added where the shape has its
place. So schemas that are not recursive may refer to a recursive one anywhere.
-/

namespace ClientGen.Package

open Plan

/-- Traits that are meant for readers only. -/
def skippedTraits : List ShapeId := [
  TraitId.documentation, .prelude "examples", .prelude "since", .prelude "tags"]

/-- The type of a shape as schemas name it. -/
def schemaType : Kind → String
  | .struct _ => "STRUCTURE"
  | .union _ => "UNION"
  | .list _ | .set _ => "LIST"
  | .map _ _ => "MAP"
  | .enumeration _ => "ENUM"
  | .scalar type => type.methodSuffix.map Char.toUpper
  | .operation _ => "OPERATION"
  | .service _ => "SERVICE"

/-- Simple types have no members; all other schemas list theirs. -/
def listsMembers : Kind → Bool
  | .scalar _ => false
  | _ => true

def keptTraits (t : Traits) : List (ShapeId × Json) :=
  t.entries.filter fun e => !skippedTraits.contains e.1

/-- A trait without a value of its own. -/
def isMarker : Json → Bool
  | .null => true
  | .obj [] => true
  | _ => false

def traitEntry (id : ShapeId) (value : Json) : Plan Step Unit :=
  if isMarker value then
    line "$T.new(id=$T($S))," [Library.traitValue, Library.shapeId, id.text]
  else
    line "$T.new(id=$T($S), value=$L)," [Library.traitValue, Library.shapeId, id.text, value.literal]

/-- A list of traits after the given opening, unless there are none to keep. -/
def traitList (opening : String) (t : Traits) : Plan Step Unit :=
  match keptTraits t with
  | [] => return
  | kept => do
    block opening [] (kept.forM fun (id, value) => traitEntry id value)
    line "]," []

def memberEntry (cx : Context) (m : Member) : Plan Step Unit := do
  let target ← cx.symbol m.target
  let schema ← target.property Symbol.schemaRole
  block "$S: \x7b" [m.name] do
    line "\"target\": $T," [schema]
    traitList "\"traits\": [" m.traits
  line "\x7d," []

/-- The entry of a constant, which is a member of the unit type. -/
def constantEntry (unit : Symbol) (v : EnumValue) : Plan Step Unit := do
  block "$S: \x7b" [v.name] do
    line "\"target\": $T," [unit]
    line "\"traits\": [$T.new(id=$T($S), value=$S)],"
      [Library.traitValue, Library.shapeId, TraitId.enumValue.text, v.value]
  line "\x7d," []

def memberEntries (cx : Context) (kind : Kind) : Plan Step Unit :=
  match kind with
  | .enumeration values => do
    let unit ← cx.symbol Prelude.unit
    let schema ← unit.property Symbol.schemaRole
    values.forM (constantEntry schema)
  | kind => kind.members.forM (memberEntry cx)

/-- The type of a shape, unless it is a structure. -/
def shapeTypeEntry (kind : Kind) : Plan Step Unit :=
  match kind with
  | .struct _ => Plan.pure ()
  | kind => line "shape_type=$T.$L," [Library.shapeType, schemaType kind]

/-- The members in the definition of a schema. -/
def membersEntry (cx : Context) (kind : Kind) : Plan Step Unit := do
  block "members=\x7b" [] (memberEntries cx kind)
  line "\x7d," []

/-- The definition of a shape's schema, with or without its members. -/
def schemaConstant (cx : Context) (shape : Shape) (withMembers : Bool) : Plan Step Unit := do
  let symbol ← cx.symbol shape.id
  let schema ← symbol.property Symbol.schemaRole
  emit (.importSymbol Library.schema)
  define .value schema.name " = $L("
    [if listsMembers shape.kind then "Schema.collection" else "Schema"] do
      line "id=$T($S)," [Library.shapeId, shape.id.text]
      shapeTypeEntry shape.kind
      traitList "traits=[" shape.traits
      onlyIf withMembers (membersEntry cx shape.kind)
  line ")" []

/-- The shell of a recursive shape. -/
def schemaShell (cx : Context) (id : ShapeId) : Plan Edit Unit := do
  let shape ← cx.shape id
  let symbol ← cx.symbol id
  let schema ← symbol.property Symbol.schemaRole
  edit schema do
    schemaConstant cx shape false
    separate

/-- The shells of all recursive shapes, which come before any other schema. -/
def schemaShells (cx : Context) : Plan Edit Unit := cx.order.recursive.forM (schemaShell cx)

/-- The schema of a shape, or the members of its shell. -/
def schema (cx : Context) (shape : Shape) : Plan Edit Unit := do
  let symbol ← cx.symbol shape.id
  let schema ← symbol.property Symbol.schemaRole
  edit schema do
    scope (.schema shape.id) do
      if cx.order.isRecursive shape.id then
        block "$L.update_members(\x7b" [.name schema] (memberEntries cx shape.kind)
        line "\x7d)" []
      else schemaConstant cx shape (listsMembers shape.kind)
    separate

end ClientGen.Package
