import ClientGen.Context
import ClientGen.Symbol.Decoration

/-!
# Integrations

What takes part in a run besides the model: protocols, auth schemes with the configuration they
need, interceptors, changes to the model and to symbols, and extra files.
-/

namespace ClientGen

/-- Writes the serializers and deserializers of one protocol. -/
structure Protocol where
  /-- The trait that declares the protocol. -/
  id : ShapeId
  dependencies : List Dependency := []
  /-- The serializers of all operations, in the given module. -/
  serializers : Context → (here : String) → Plan Step Unit
  deserializers : Context → (here : String) → Plan Step Unit

/-- How requests are signed for one auth trait. -/
structure AuthScheme where
  id : ShapeId
  /-- The function that makes an option of the scheme. -/
  factoryName : String
  /-- Defines that function. -/
  factory : Context → Plan Step Unit
  /-- The class that implements the scheme. -/
  symbol : Option Symbol := none

/-- A property of the client's configuration. -/
structure ConfigProperty where
  name : String
  type : Symbol
  documentation : String
  /-- The expression for a property that is not given. -/
  default : Option String := none

/-- An auth scheme and configuration for the services it applies to. -/
structure Plugin where
  scheme : Option AuthScheme := none
  properties : List ConfigProperty := []
  appliesTo : Shape → Bool := fun _ => true

/-- A late change to the package. -/
inductive Customization where
  /-- A file beside the generated ones. -/
  | file (path : Path) (contents : String)
  | edit (path ns : String) (script : Script)
  /-- An edit of the file that declares a symbol. -/
  | editDeclaring (s : Symbol) (script : Script)
  | fail (e : Error)

structure Integration where
  name : String
  /-- Integrations with higher priority are applied first. -/
  priority : Int := 0
  preprocess : Model → Except Error Model := .ok
  decorate : Provider → Provider := id
  protocols : List Protocol := []
  plugins : List Plugin := []
  interceptors : Registry := []
  customizations : List Customization := []

namespace Integration

/-- Higher priorities first, else in the given order. -/
def sort (is : List Integration) : List Integration :=
  is.mergeSort fun a b => b.priority ≤ a.priority

def servicePlugins (is : List Integration) (service : Shape) : List Plugin :=
  (is.flatMap Integration.plugins).filter fun p => p.appliesTo service

end Integration

namespace Protocol

/-- Traits that declare a protocol, whether or not the model declares them. -/
def known : List ShapeId := [
  { ns := "aws.protocols", name := "restJson1" },
  { ns := "aws.protocols", name := "awsJson1_0" },
  { ns := "aws.protocols", name := "awsJson1_1" },
  { ns := "aws.protocols", name := "restXml" },
  { ns := "aws.protocols", name := "awsQuery" },
  { ns := "aws.protocols", name := "ec2Query" },
  { ns := "smithy.protocols", name := "rpcv2Cbor" }]

def isProtocol (m : Model) (registered : List ShapeId) (id : ShapeId) : Bool :=
  registered.contains id || known.contains id ||
    match m.get? id with
    | some shape => shape.traits.has TraitId.protocolDefinition
    | none => false

/-- The protocols of a service, in the order of its traits. -/
def declared (m : Model) (service : Shape) (registered : List ShapeId) : List ShapeId :=
  service.traits.ids.filter (isProtocol m registered)

def find? (protocols : List Protocol) (id : ShapeId) : Option Protocol :=
  protocols.find? fun p => p.id == id

/-- The protocol of a service: the pinned one, or the first declared one that is available. -/
def select (m : Model) (service : Shape) (pinned : Option ShapeId) (protocols : List Protocol) :
    Except Error (Option Protocol) :=
  let declared := declared m service (protocols.map Protocol.id)
  match pinned with
  | some id =>
    if !declared.contains id then .error (.settings (.unsupportedProtocol id service.id))
    else match find? protocols id with
      | some p => .ok (some p)
      | none => .error (.settings (.unregisteredProtocol id))
  | none => .ok (declared.findSome? (find? protocols))

end Protocol

end ClientGen
