import ClientGen.Text.Split

/-!
# Shape ids

The absolute name of a shape, `ns#Name`, or of a member of one, `ns#Name$member`.

* `ShapeId.parse?` reads the text form: identifiers of ASCII, the namespace a list of them with
  dots between.
* The order is by namespace, then name, then member, the shape itself before its members.
-/

namespace ClientGen

/-- An absolute shape id. Members of a shape may bear any name, so not every id has a text form
that reads back. -/
structure ShapeId where
  ns : String
  name : String
  member : Option String := none
deriving DecidableEq, Hashable, Ord, Repr, Inhabited

namespace ShapeId

/-- The namespace of the shapes and traits that every model may use undeclared. -/
def preludeNs : String := "smithy.api"

/-- The id of a prelude shape or trait. -/
def prelude (name : String) : ShapeId := { ns := preludeNs, name }

/-- The text form, `ns#Name` or `ns#Name$member`. -/
def text (id : ShapeId) : String :=
  match id.member with
  | none => id.ns ++ "#" ++ id.name
  | some m => id.ns ++ "#" ++ id.name ++ "$" ++ m

instance : ToString ShapeId := ⟨text⟩

/-- The form in which messages show an id inside other data. -/
def inspect (id : ShapeId) : String := "ShapeId(" ++ id.text ++ ")"

def isMember (id : ShapeId) : Bool := id.member.isSome

def isPrelude (id : ShapeId) : Bool := id.ns == preludeNs

def withMember (id : ShapeId) (m : String) : ShapeId := { id with member := some m }

/-- The id without its member part. -/
def root (id : ShapeId) : ShapeId := { id with member := none }

/-- A list of identifiers with dots between, at least one. -/
def isNamespace (cs : List Char) : Bool :=
  (Text.pieces '.' cs).all Text.isIdentifier

/-- The parts of an id after the namespace: a name, and a member if a dollar sign follows. -/
def splitName (cs : List Char) : List Char × Option (List Char) :=
  match Text.cut? '$' cs with
  | some (name, member) => (name, some member)
  | none => (cs, none)

def parse? (s : String) : Option ShapeId :=
  match Text.cut? '#' s.toList with
  | none => none
  | some (ns, rest) =>
    let (name, member) := splitName rest
    if isNamespace ns && Text.isIdentifier name && (member.map Text.isIdentifier).getD true then
      some { ns := String.ofList ns, name := String.ofList name, member := member.map String.ofList }
    else none

/-- The absolute text of a name that may lack a namespace; such names are prelude names. -/
def absolute (s : String) : String :=
  if s.toList.contains '#' then s else preludeNs ++ "#" ++ s

end ShapeId

end ClientGen
