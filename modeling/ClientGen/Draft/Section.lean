import ClientGen.ShapeId
import ClientGen.Text.Quoted

/-!
# Sections

The parts of generated files that interceptors may extend or replace.
-/

namespace ClientGen

inductive Section where
  | struct (id : ShapeId)
  | union (id : ShapeId)
  | unionMember (id : ShapeId)
  | enumeration (id : ShapeId)
  | collection (id : ShapeId)
  | schema (id : ShapeId)
  | serviceErrors
  | configProperties
  | clientClass (service : ShapeId)
  | operation (id : ShapeId)
  | authResolver (service : ShapeId)
  | custom (name : String)
deriving DecidableEq, Repr

/-- The section as reports show it. -/
def Section.inspect : Section → String
  | .struct id => "Structure(" ++ id.inspect ++ ")"
  | .union id => "Union(" ++ id.inspect ++ ")"
  | .unionMember id => "UnionMember(" ++ id.inspect ++ ")"
  | .enumeration id => "Enum(" ++ id.inspect ++ ")"
  | .collection id => "Collection(" ++ id.inspect ++ ")"
  | .schema id => "Schema(" ++ id.inspect ++ ")"
  | .serviceErrors => "ServiceErrors"
  | .configProperties => "ConfigProperties"
  | .clientClass service => "ClientClass(" ++ service.inspect ++ ")"
  | .operation id => "Operation(" ++ id.inspect ++ ")"
  | .authResolver service => "AuthResolver(" ++ service.inspect ++ ")"
  | .custom name => "Custom(" ++ Text.inspect name ++ ")"

end ClientGen
