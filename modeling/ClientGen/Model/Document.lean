import ClientGen.Dictionary
import ClientGen.Json.Raw

/-!
# Model documents

The JSON form of a model as written: metadata, and an entry per shape with ids still as text.
`Document.read` accepts a document by its form alone; what the texts mean is settled when it is
assembled into a model.

Records may be objects or arrays of their fields in order. Fields that are not declared are skipped
and only have to be well-formed JSON.
-/

namespace ClientGen

open Json (Object Raw)

/-- A member as written. -/
structure MemberEntry where
  target : String
  traits : Object := []

/-- A shape as written. -/
structure ShapeEntry where
  type : String
  traits : Object := []
  members : Option Object := none
  member : Option MemberEntry := none
  key : Option MemberEntry := none
  value : Option MemberEntry := none
  input : Option String := none
  output : Option String := none
  errors : List String := []
  operations : List String := []
  collectionOperations : List String := []
  resources : List String := []
  version : Option String := none
  /-- The operations bound to the stages of a resource's life, in the order create, put, read,
  update, delete, list. -/
  lifecycle : List String := []

/-- A document as written, its shapes in order of their keys. -/
structure Document where
  metadata : Object := []
  shapes : Dictionary String ShapeEntry := []

namespace Document

/-! ### Fields

Each reader takes the field's part of the document, `none` if it is left out, and the number of
containers that may still open. -/

def text (room : Nat) (field : Option Raw) : Option String := do
  let part ← field
  let value ← part.value? room
  value.text?

def optionalText (room : Nat) (field : Option Raw) : Option (Option String) :=
  match field with
  | none => some none
  | some .null => some none
  | field => (text room field).map some

def object (room : Nat) (field : Option Raw) : Option Object :=
  match field with
  | none => some []
  | some part =>
    match part.value? room with
    | some (.obj members) => some members
    | _ => none

def optionalObject (room : Nat) (field : Option Raw) : Option (Option Object) :=
  match field with
  | none => some none
  | some .null => some none
  | field => (object room field).map some

/-- The fields of a record, one container further in. -/
def record (names : List String) (room : Nat) (part : Raw) : Option (Nat × List (Option Raw)) :=
  if room == 0 then none else (part.fields names).map fun fs => (room - 1, fs)

/-- A record with the one field `target`. -/
def target (room : Nat) (part : Raw) : Option String := do
  let (room, fields) ← record ["target"] room part
  text room (fields.getD 0 none)

def optionalTarget (room : Nat) (field : Option Raw) : Option (Option String) :=
  match field with
  | none => some none
  | some .null => some none
  | some part => (target room part).map some

def targets (room : Nat) (field : Option Raw) : Option (List String) :=
  match field with
  | none => some []
  | some (.array items) => if room == 0 then none else items.mapM (target (room - 1))
  | some _ => none

def optionalMember (room : Nat) (field : Option Raw) : Option (Option MemberEntry) :=
  match field with
  | none => some none
  | some .null => some none
  | some part => do
    let (room, fields) ← record ["target", "traits"] room part
    let target ← text room (fields.getD 0 none)
    let traits ← object room (fields.getD 1 none)
    return some { target, traits }

/-- The fields of a shape entry, in order. -/
def shapeFields : List String := [
  "type", "traits", "members", "member", "key", "value", "input", "output", "errors",
  "operations", "collectionOperations", "resources", "version", "create", "put", "read",
  "update", "delete", "list"]

def shapeEntry (room : Nat) (part : Raw) : Option ShapeEntry := do
  let (room, fields) ← record shapeFields room part
  let field (i : Nat) := fields.getD i none
  let lifecycle ← (fields.drop 13).mapM (optionalTarget room)
  return {
    type := ← text room (field 0)
    traits := ← object room (field 1)
    members := ← optionalObject room (field 2)
    member := ← optionalMember room (field 3)
    key := ← optionalMember room (field 4)
    value := ← optionalMember room (field 5)
    input := ← optionalTarget room (field 6)
    output := ← optionalTarget room (field 7)
    errors := ← targets room (field 8)
    operations := ← targets room (field 9)
    collectionOperations := ← targets room (field 10)
    resources := ← targets room (field 11)
    version := ← optionalText room (field 12)
    lifecycle := lifecycle.filterMap id }

/-- The shapes in order of their keys; of a repeated key the last entry counts. -/
def shapeEntries (room : Nat) (field : Option Raw) : Option (Dictionary String ShapeEntry) :=
  match field with
  | none => some []
  | some (.object members) =>
    if room == 0 then none
    else do
      let entries ← members.mapM fun (key, part) => do
        let key ← key
        let entry ← shapeEntry (room - 1) part
        return (key, entry)
      return entries.foldl (fun acc (key, entry) => Dictionary.insert key entry acc) []
  | some _ => none

def read (s : String) : Option Document := do
  let part ← Raw.read s
  let (room, fields) ← record ["metadata", "shapes"] Raw.maxDepth part
  let metadata ← object room (fields.getD 0 none)
  let shapes ← shapeEntries room (fields.getD 1 none)
  return { metadata, shapes }

end Document

/-- A member given as a value; see `Document.optionalMember`. -/
def MemberEntry.ofJson? (value : Json) : Option MemberEntry := do
  let fields ← value.fields ["target", "traits"]
  let target ← (← fields.getD 0 none).text?
  let traits ← match fields.getD 1 none with
    | none => some []
    | some (.obj members) => some members
    | some _ => none
  return { target, traits }

end ClientGen
