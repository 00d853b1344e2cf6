import ClientGen.Model.Basic
import ClientGen.Model.Document

/-!
# Assembling models

Documents are merged one after another into an assembly, which is then finished: operations bound
to resources are attached to the services that hold the resources.

* `Model.ofDocument`: the model of one document.
-/

namespace ClientGen

open Json (Object)

/-- The operations and nested resources bound to a resource. -/
structure Resource where
  operations : List ShapeId
  resources : List ShapeId

/-- What an entry of a document defines. -/
inductive Definition where
  | shape (shape : Shape)
  /-- A service and the resources that it holds. -/
  | service (shape : Shape) (held : List ShapeId)
  | resource (id : ShapeId) (resource : Resource)

/-- Documents merged so far. Resources are no shapes of the model. -/
structure Assembly where
  model : Model := .empty
  resources : List (ShapeId × Resource) := []
  /-- The resources that each service holds. -/
  holdings : List (ShapeId × List ShapeId) := []

namespace Assembly

def readIds (texts : List String) : Except Error (List ShapeId) := texts.mapM ShapeId.read

def readId? (s : Option String) : Except Error (Option ShapeId) := s.mapM ShapeId.read

/-- Traits from their names and values; of two spellings of one name the last value counts. -/
def readTraits (entries : Object) : Except Error Traits :=
  entries.foldlM (fun traits (name, value) => do
    let id ← ShapeId.readRelative name
    return traits.insert id value) {}

def readMember (container : ShapeId) (name : String) (entry : MemberEntry) :
    Except Error Member := do
  let target ← ShapeId.read entry.target
  let traits ← readTraits entry.traits
  return { id := container.withMember name, target, traits }

/-- The member under a key of an object of members. -/
def readMemberAt (container : ShapeId) (name : String) (value : Json) : Except Error Member :=
  match MemberEntry.ofJson? value with
  | some entry => readMember container name entry
  | none => .error (.invalidModel (.malformedMember container name "expected a target and traits"))

def readMembers (container : ShapeId) (members : Option Object) : Except Error (List Member) :=
  (members.getD []).mapM fun (name, value) => readMemberAt container name value

/-- The constant that an enumeration's member stands for. -/
def enumValue (m : Member) : Except Error EnumValue := do
  let value ← match m.traits.get? TraitId.enumValue with
    | some (.str s) => pure s
    | some _ => throw (.invalidModel (.enumValueNotText m.id))
    | none => pure m.name
  return { name := m.name, value, documentation := m.traits.documentation }

def optionalText? : Option Json → Option (Option String)
  | none => some none
  | some .null => some none
  | some (.str s) => some (some s)
  | some _ => none

/-- A constant as an entry of the trait that turns a string into an enumeration. -/
def enumDefinition? (value : Json) : Option EnumValue := do
  let fields ← value.fields ["value", "name", "documentation"]
  let text ← (← fields.getD 0 none).text?
  let name ← optionalText? (fields.getD 1 none)
  let documentation ← optionalText? (fields.getD 2 none)
  return { name := name.getD text, value := text, documentation }

def enumDefinitions (value : Json) : Except Error (List EnumValue) :=
  let found := match value with
    | .arr items => items.mapM enumDefinition?
    | _ => none
  match found with
  | some values => .ok values
  | none => .error (.model (.traitValue TraitId.enumeration "expected a list of definitions"))

/-- A field that shapes of the type at hand must have. -/
def field (shape : ShapeId) (name : String) (value : Option α) : Except Error α :=
  match value with
  | some a => .ok a
  | none => .error (.invalidModel (.missingField shape name))

/-- The kind of a shape that is neither service nor resource. -/
def readKind (id : ShapeId) (entry : ShapeEntry) (traits : Traits) : Except Error Kind :=
  match entry.type with
  | "structure" => return .struct (← readMembers id entry.members)
  | "union" => return .union (← readMembers id entry.members)
  | "list" => do
    let m ← field id "member" entry.member
    return .list (← readMember id "member" m)
  | "set" => do
    let m ← field id "member" entry.member
    return .set (← readMember id "member" m)
  | "map" => do
    let key ← field id "key" entry.key
    let value ← field id "value" entry.value
    return .map (← readMember id "key" key) (← readMember id "value" value)
  | "enum" => do
    let members ← readMembers id entry.members
    return .enumeration (← members.mapM enumValue)
  | "operation" => do
    let input ← readId? entry.input
    let output ← readId? entry.output
    return .operation { input, output, errors := ← readIds entry.errors }
  | type =>
    match type == "string", traits.get? TraitId.enumeration, Scalar.ofTypeName? type with
    | true, some value, _ => return .enumeration (← enumDefinitions value)
    | _, _, some scalar => return .scalar scalar
    | _, _, none => throw (.invalidModel (.unsupportedType id type))

def insertResource (id : ShapeId) (r : Resource) :
    List (ShapeId × Resource) → List (ShapeId × Resource)
  | [] => [(id, r)]
  | (k, v) :: rest => if k == id then (k, r) :: rest else (k, v) :: insertResource id r rest

/-- The shape or resource that an entry defines. -/
def readDefinition (id : ShapeId) (entry : ShapeEntry) : Except Error Definition := do
  let traits ← readTraits entry.traits
  match entry.type with
  | "service" =>
    let held ← readIds entry.resources
    let operations ← readIds entry.operations
    let errors ← readIds entry.errors
    let kind := Kind.service { version := entry.version, operations, errors }
    return .service { id, kind, traits } held
  | "resource" =>
    let bound ← readIds entry.operations
    let ofCollection ← readIds entry.collectionOperations
    let lifecycle ← readIds entry.lifecycle
    let resources ← readIds entry.resources
    return .resource id { operations := bound ++ ofCollection ++ lifecycle, resources }
  | _ =>
    let kind ← readKind id entry traits
    return .shape { id, kind, traits }

/-- Adds a definition. Only shapes have to be new. -/
def put (a : Assembly) : Definition → Except Error Assembly
  | .shape s => return { a with model := ← a.model.add s }
  | .service s held => do
    let model ← a.model.add s
    return { a with model, holdings := a.holdings ++ [(s.id, held)] }
  | .resource id r => return { a with resources := insertResource id r a.resources }

/-- The definition under a key of a document. -/
def define (key : String) (entry : ShapeEntry) : Except Error Definition := do
  readDefinition (← ShapeId.read key) entry

/-- The value of a metadata key after a document gives it another one. -/
def mergeValue (key : String) : Option Json → Json → Except Error Json
  | none, value => .ok value
  | some (.arr before), .arr more => .ok (.arr (before ++ more))
  | some before, value =>
    if before.same value then .ok value else .error (.invalidModel (.conflictingMetadata key))

def mergeMetadata (a : Assembly) (key : String) (value : Json) : Except Error Assembly := do
  let merged ← mergeValue key (a.model.metadata.get? key) value
  return { a with model := a.model.setMetadata key merged }

/-- Merges a document: its metadata first, then its shapes in order of their keys. -/
def pushDocument (a : Assembly) (d : Document) : Except Error Assembly := do
  let a ← d.metadata.foldlM (fun a (key, value) => a.mergeMetadata key value) a
  d.shapes.foldlM (fun a (key, entry) => do a.put (← define key entry)) a

/-- Merges a document given as text. -/
def push (a : Assembly) (s : String) : Except Error Assembly :=
  match Document.read s with
  | some d => a.pushDocument d
  | none => .error (.model (.json "not a model document"))

/-- The operations of the resources on the stack and of all resources nested in them; `fuel` bounds
the number of resources, each of which is looked at once. -/
def boundOperations (resources : List (ShapeId × Resource)) (service : ShapeId) :
    Nat → List ShapeId → List ShapeId → Except Error (List ShapeId)
  | 0, _, _ => .ok []
  | fuel + 1, stack, seen =>
    match stack.dropWhile seen.contains with
    | [] => .ok []
    | id :: rest =>
      match resources.find? fun r => r.1 == id with
      | none => .error (.invalidModel (.unknownResource service id))
      | some (_, r) => do
        let more ← boundOperations resources service fuel (r.resources.reverse ++ rest) (id :: seen)
        return r.operations ++ more

/-- The list with the new elements of another one at its end, each once. -/
def appendNew [DecidableEq α] (xs : List α) (more : List α) : List α :=
  more.foldl (fun acc x => if acc.contains x then acc else acc ++ [x]) xs

/-- Attaches the operations of a service's resources to it. -/
def flatten (resources : List (ShapeId × Resource)) (m : Model) (service : ShapeId)
    (held : List ShapeId) : Except Error Model := do
  let extra ← boundOperations resources service (resources.length + 1) held.reverse []
  if extra.isEmpty then return m
  let shape ← m.expect service
  match shape.kind with
  | .service s =>
    m.replace { shape with kind := .service { s with operations := appendNew s.operations extra } }
  | _ => m.replace shape

/-- The model, with resources flattened into their services. -/
def finish (a : Assembly) : Except Error Model :=
  a.holdings.foldlM (fun m (service, held) => flatten a.resources m service held) a.model

end Assembly

def Model.ofDocument (s : String) : Except Error Model := do
  let a ← ({} : Assembly).push s
  a.finish

end ClientGen
