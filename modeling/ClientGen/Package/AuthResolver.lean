import ClientGen.Auth
import ClientGen.Integration
import ClientGen.Package.Names

/-!
# The auth module

A function for each scheme that makes an auth option of it, and the class that lists the options of
an operation, preferred ones first.
-/

namespace ClientGen.Package

open Plan

/-- The schemes of plugins, the first of each trait. -/
def registeredSchemes (plugins : List Plugin) : List AuthScheme :=
  (plugins.filterMap Plugin.scheme).foldl (fun acc s =>
    if acc.any fun t => t.id == s.id then acc else acc ++ [s]) []

def findScheme (schemes : List AuthScheme) (id : ShapeId) : Except Error AuthScheme :=
  match schemes.find? fun s => s.id == id with
  | some s => .ok s
  | none => .error (.other (.unregisteredScheme id))

/-- The functions of the given schemes, as a list. -/
def factoryList (schemes : List AuthScheme) (ids : List ShapeId) : Except Error String := do
  let found ← ids.mapM (findScheme schemes)
  return "[" ++ ", ".intercalate (found.map AuthScheme.factoryName) ++ "]"

/-- The candidates of an operation: a case for each override, and one for all other operations. -/
def candidateChoice (service : String) (overrides : List (String × String)) : Plan Step Unit := do
  if overrides.isEmpty then line "candidates = $L" [service]
  else
    block "match auth_parameters.operation:" [] do
      overrides.forM fun (name, candidates) =>
        block "case $S:" [name] (line "candidates = $L" [candidates])
      block "case _:" [] (line "candidates = $L" [service])

def resolverClass (cx : Context) (name service : String) (overrides : List (String × String)) :
    Plan Step Unit :=
  define .classDef name ":" [] do
    docs ("Resolves the auth options for a " ++ cx.service.id.name ++
      " operation, most preferred first.")
    newline
    block "def resolve_auth_scheme(self, auth_parameters: $T) -> list[$T]:"
      [Library.authParams, Library.authOption] do
        line "candidates: list[$T[[$T], $T | None]]"
          [Library.callable, Library.authParams, Library.authOption]
        candidateChoice service overrides
        newline
        line "auth_options: list[$T] = []" [Library.authOption]
        block "for factory in candidates:" [] do
          block "if (option := factory(auth_parameters)) is not None:" []
            (line "auth_options.append(option)" [])
        line "return auth_options" []

/-- The auth module. -/
def authSchemes (cx : Context) (resolution : AuthResolution) (schemes : List AuthScheme) :
    Plan Edit Unit :=
  let resolver := authResolver cx.package
  edit resolver do
    resolution.all.forM fun id => do
      let scheme ← findScheme schemes id
      scheme.factory cx
      separate
    let service ← factoryList schemes resolution.service
    let overrides ← resolution.overrides.mapM fun (operation, ids) => do
      let candidates ← factoryList schemes ids
      return (operation.name, candidates)
    scope (.authResolver cx.service.id) (resolverClass cx resolver.name service overrides)

end ClientGen.Package
