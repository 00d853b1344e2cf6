import ClientGen.Dictionary
import ClientGen.Model.Basic

/-!
# Auth schemes

Which auth schemes a service and its operations use. A service's schemes are those that its `auth`
trait lists, or else all that it applies, by id. An operation with an `auth` trait of its own has
the schemes that it lists and the service applies. Of all these only schemes that are registered
are used.
-/

namespace ClientGen

namespace Auth

/-- Traits that define an auth scheme, whether or not the model declares them. -/
def knownSchemes : List ShapeId := [
  .prelude "httpBasicAuth",
  .prelude "httpDigestAuth",
  .prelude "httpBearerAuth",
  .prelude "httpApiKeyAuth",
  { ns := "aws.auth", name := "sigv4" },
  { ns := "aws.auth", name := "sigv4a" }]

/-- Does the trait define an auth scheme? -/
def isDefinition (m : Model) (id : ShapeId) : Bool :=
  knownSchemes.contains id ||
    match m.get? id with
    | some shape => shape.traits.has TraitId.authDefinition
    | none => false

/-- The auth schemes applied to a shape, by id. -/
def applied (m : Model) (s : Shape) : List ShapeId :=
  Model.sortIds (s.traits.ids.filter (isDefinition m))

/-- The schemes that a shape's `auth` trait lists, if it has one. -/
def listed? (s : Shape) : Except Error (Option (List ShapeId)) := do
  match ← s.traits.texts? TraitId.auth with
  | none => return none
  | some names => return some (← names.mapM ShapeId.readRelative)

/-- The schemes of a service, preferred ones first. -/
def serviceSchemes (m : Model) (service : Shape) : Except Error (List ShapeId) := do
  let applied := applied m service
  match ← listed? service with
  | none => return applied
  | some ids =>
    match ids.find? fun id => !applied.contains id with
    | some id => throw (.invalidModel (.unappliedScheme service.id id))
    | none => return ids

/-- The schemes that an operation has in place of its service's. -/
def operationSchemes? (m : Model) (service operation : Shape) :
    Except Error (Option (List ShapeId)) := do
  let applied := applied m service
  match ← listed? operation with
  | none => return none
  | some ids => return some (ids.filter applied.contains)

end Auth

/-- The registered schemes of a service, and of the operations with schemes of their own. -/
structure AuthResolution where
  service : List ShapeId
  overrides : Dictionary ShapeId (List ShapeId)

namespace AuthResolution

/-- The override of an operation. The choice at run time is by the bare name of the operation, so
another one of that name makes it ambiguous. -/
def override? (m : Model) (service : Shape) (operations : List Shape) (operation : Shape) :
    Except Error (Option (List ShapeId)) := do
  match ← Auth.operationSchemes? m service operation with
  | none => return none
  | some ids =>
    let name := operation.id.name
    match operations.find? fun o => o.id != operation.id && o.id.name == name with
    | some other => throw (.invalidModel (.ambiguousOverride operation.id other.id name))
    | none => return some ids

/-- The schemes that are used, of those registered. -/
def of (m : Model) (service : Shape) (operations : List Shape) (registered : List ShapeId) :
    Except Error AuthResolution := do
  let keep (ids : List ShapeId) := ids.filter registered.contains
  let schemes ← Auth.serviceSchemes m service
  let overrides ← operations.foldlM (fun acc operation => do
    match ← override? m service operations operation with
    | none => return acc
    | some ids => return Dictionary.insert operation.id (keep ids) acc) []
  return { service := keep schemes, overrides }

def forOperation (r : AuthResolution) (operation : ShapeId) : List ShapeId :=
  (Dictionary.get? operation r.overrides).getD r.service

/-- Every scheme that is used, in the order of first use. -/
def all (r : AuthResolution) : List ShapeId :=
  (r.service ++ r.overrides.flatMap (·.2)).eraseDups

end AuthResolution

end ClientGen
