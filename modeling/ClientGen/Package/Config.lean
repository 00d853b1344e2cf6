import ClientGen.Integration
import ClientGen.Package.Names

/-!
# The config module

The client's configuration, and the type of functions that change it.
-/

namespace ClientGen.Package

open Plan

/-- The field of a property, without its documentation. -/
def propertyLine (p : ConfigProperty) : Plan Step Unit :=
  match p.default with
  | some expression => defineLine .value p.name ": $T = $L" [p.type, expression]
  | none => defineLine .value p.name ": $T | None = None" [p.type]

def propertyField (p : ConfigProperty) : Plan Step Unit := do
  propertyLine p
  docs p.documentation
  newline

/-- A class with type arguments that may be anything. -/
def anyOf (name any : String) (count : Nat) : String :=
  name ++ "[" ++ ", ".intercalate (List.replicate count any) ++ "]"

/-- The properties that every client has. -/
def baseProperties (cx : Context) (here : String) (schemes : List (ShapeId × Symbol)) :
    Plan Step (List ConfigProperty) := do
  let any ← reference here Library.any
  let field ← reference here Library.field
  let factory (name : String) := some (field ++ "(default_factory=" ++ name ++ ")")
  let entries ← schemes.mapM fun (id, s) => do
    let name ← reference here s
    return Text.quote id.text ++ ": " ++ name ++ "()"
  let httpClient ← reference here Library.aiohttpClient
  let retryStrategy ← reference here Library.simpleRetryStrategy
  let resolver ← reference here (authResolver cx.package)
  let protocol ← reference here Library.clientProtocol
  let interceptor ← reference here Library.interceptor
  let authScheme ← reference here Library.httpAuthScheme
  return [
    { name := "http_client"
      type := Library.httpClient
      documentation := "The HTTP client used to make requests."
      default := factory httpClient },
    { name := "protocol"
      type := .builtin (anyOf protocol any 2)
      documentation := "The protocol used to serialize requests and deserialize responses when " ++
        "the client has no generated serializers." },
    { name := "interceptors"
      type := .builtin ("list[" ++ anyOf interceptor any 4 ++ "]")
      documentation := "The interceptors used by the client."
      default := factory "list" },
    { name := "retry_strategy"
      type := Library.retryStrategy
      documentation := "The retry strategy for issuing retry tokens and computing retry delays."
      default := factory retryStrategy },
    { name := "endpoint_uri"
      type := .builtin "str"
      documentation := "The endpoint requests are sent to." },
    { name := "auth_scheme_resolver"
      type := authResolver cx.package
      documentation := "Selects the auth options for each operation."
      default := factory resolver },
    { name := "auth_schemes"
      type := .builtin ("dict[str, " ++ anyOf authScheme any 4 ++ "]")
      documentation := "The auth schemes the client can use, keyed by scheme id."
      default := factory ("lambda: \x7b" ++ ", ".intercalate entries ++ "\x7d") }]

/-- The properties with those added whose names are not taken. -/
def addProperties (base more : List ConfigProperty) : List ConfigProperty :=
  more.foldl (fun acc p => if acc.any fun q => q.name == p.name then acc else acc ++ [p]) base

/-- The configuration class, given the schemes in use with their classes. -/
def configClass (cx : Context) (plugins : List Plugin) (schemes : List (ShapeId × Symbol)) :
    Plan Edit Unit :=
  let config := config cx.package
  edit config do
    let base ← baseProperties cx config.ns schemes
    let properties := addProperties base (plugins.flatMap Plugin.properties)
    line "@$T(kw_only=True)" [Library.dataclass]
    define .classDef config.name ":" [] do
      docs ("Configuration for the " ++ cx.service.id.name ++ " client.")
      newline
      scope .configProperties (properties.forM propertyField)
    separate
    defineLine .typeAlias (plugin cx.package).name " = $T[[$L], None]"
      [Library.callable, .name config]
    docs "A callable that allows customizing the config object on each request."

end ClientGen.Package
