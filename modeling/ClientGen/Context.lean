import ClientGen.EmissionOrder
import ClientGen.Plan
import ClientGen.Settings

/-!
# The context of a run

What code generation knows: the model, the settings, how symbols are made, the emission order, and
the service.
-/

namespace ClientGen

structure Context where
  model : Model
  settings : Settings
  provider : Provider
  order : EmissionOrder
  service : Shape

/-- The ids reached from `target` by going from a collection to its elements, at most `fuel` of
them. -/
def Model.elementChain (m : Model) : Nat → ShapeId → List ShapeId
  | 0, _ => []
  | fuel + 1, target =>
    target :: match (m.get? target).bind fun s => s.kind.element? with
      | some e => m.elementChain fuel e.target
      | none => []

namespace Context

def package (cx : Context) : String := cx.settings.module

def symbol (cx : Context) (id : ShapeId) : Plan ω Symbol :=
  Plan.ofNames (cx.provider.symbol cx.model id)

def shape (cx : Context) (id : ShapeId) : Except Error Shape := cx.model.expect id

def memberName (cx : Context) (m : Member) : String := cx.provider.memberName m.name

/-- Is the target recursive, or a collection of recursive values at any depth? Its declaration may
then stand after the mention. Each collection has one element target, so the chain repeats itself
if it is longer than the list of shapes. -/
def isDeferred (cx : Context) (target : ShapeId) : Bool :=
  (cx.model.elementChain (cx.model.shapes.length + 2) target).any cx.order.isRecursive

/-- The operations of the service, in order of their ids. -/
def operations (cx : Context) : Except Error (List (Shape × Operation)) :=
  cx.model.serviceOperations cx.service.id

/-- The symbol of an operation's input or output; none if it is left out or the unit type. -/
def operationValue (cx : Context) (id : Option ShapeId) : Plan ω (Option Symbol) :=
  match id with
  | some id =>
    if id == Prelude.unit then pure none
    else do
      let s ← cx.symbol id
      return some s
  | none => pure none

end Context

end ClientGen
