import ClientGen.Context
import ClientGen.Package.Literal
import ClientGen.Package.Names

/-!
# Fields

How a member appears as a field of a class: its type, and the value it has when it is not given.
-/

namespace ClientGen.Package

open Plan

/-- The schema of a member, given the schema of its shape. -/
def memberSchema (here : String) (schema : Symbol) (name : String) : Plan Step String := do
  let text ← reference here schema
  return text ++ ".members[" ++ Text.quote name ++ "]"

/-- The type of a target, quoted as a whole if its declaration may come later. -/
def typeHint (cx : Context) (here : String) (target : ShapeId) (optional : Bool) :
    Plan Step String := do
  let s ← cx.symbol target
  let text ← reference here s
  let text := if optional then text ++ " | None" else text
  return if cx.isDeferred target then "\"" ++ text ++ "\"" else text

/-- The default value of a member; null is none. -/
def defaultValue? (m : Member) : Option Json :=
  match m.default? with
  | some v => if v.isNull then none else some v
  | none => none

def isOptional (m : Member) : Bool := !m.isRequired && (defaultValue? m).isNone

/-- The constant of an enumeration's value, by the name of the value. -/
def constantName (name : String) : String :=
  let constant := Text.screamingCase name
  match constant.toList with
  | [] => "_"
  | c :: _ => if c.isDigit then "_" ++ constant else constant

/-- The constant that stands for a text. -/
def constantFor (enumeration : ShapeId) (values : List EnumValue) (text : String) :
    Except Error String :=
  match values.find? fun v => v.value == text with
  | some v => .ok (constantName v.name)
  | none => .error (.invalidModel (.unknownEnumDefault text enumeration))

/-- A default that is made anew for each value. -/
def factoryDefault (here factory : String) : Plan Step String := do
  let field ← reference here Library.field
  return field ++ "(default_factory=" ++ factory ++ ")"

/-- The default of a timestamp: seconds, or a text in ISO form. -/
def timestampDefault (cx : Context) (here : String) (v : Json) : Plan Step String := do
  if v.isZero then reference here (defaultTimestamp cx.package)
  else match v with
    | .int _ | .float _ =>
      let datetime ← reference here Library.datetime
      let utc ← reference here Library.utc
      return datetime ++ ".fromtimestamp(" ++ v.text ++ ", tz=" ++ utc ++ ")"
    | .str s =>
      let datetime ← reference here Library.datetime
      return datetime ++ ".fromisoformat(" ++ Text.quote s ++ ")"
    | _ => fail (.invalidModel (.timestampDefault v.text))

/-- The expression for a default value of a member's target. -/
def defaultExpression (cx : Context) (here : String) (target : ShapeId) (v : Json) :
    Plan Step String := do
  let shape ← cx.shape target
  match shape.kind, v with
  | .list _, _ => factoryDefault here "list"
  | .set _, _ => factoryDefault here "set"
  | .map _ _, _ => factoryDefault here "dict"
  | .enumeration values, .str s =>
    let symbol ← cx.symbol shape.id
    let type ← reference here symbol
    let constant ← constantFor shape.id values s
    return type ++ "." ++ constant
  | .scalar .timestamp, v => timestampDefault cx here v
  | .scalar .blob, .str s =>
    if s.isEmpty then return "b\"\""
    else
      let decode ← reference here Library.b64decode
      return decode ++ "(" ++ Text.quote s ++ ")"
  | .scalar .bigDecimal, v =>
    let decimal ← reference here Library.decimal
    return decimal ++ "(" ++ Text.quote (v.text?.getD v.text) ++ ")"
  | .scalar .document, v =>
    let field ← reference here Library.field
    let document ← reference here Library.document
    return field ++ "(default_factory=lambda: " ++ document ++ "(" ++ v.literal ++ "))"
  | _, v => return v.literal

/-- The expression for a member's default value, if it has one. -/
def memberDefault (cx : Context) (here : String) (m : Member) : Plan Step (Option String) :=
  match defaultValue? m with
  | none => pure none
  | some v => do
    let text ← defaultExpression cx here m.target v
    return some text

end ClientGen.Package
