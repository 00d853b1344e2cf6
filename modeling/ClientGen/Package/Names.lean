import ClientGen.Symbol.Naming

/-!
# Names with a fixed place in the package

The symbols that every generated package declares, whatever its service, and the functions that
move an operation's values over the wire.
-/

namespace ClientGen.Package

open Naming (declared)

def configModule : String := "config"
def authModule : String := "auth"
def serializeModule : String := "_private.serialize"
def deserializeModule : String := "_private.deserialize"

def serviceError (package : String) : Symbol := Naming.modelClass package "ServiceError"
def apiError (package : String) : Symbol := Naming.modelClass package "ApiError"
def unknownApiError (package : String) : Symbol := Naming.modelClass package "UnknownApiError"
def defaultTimestamp (package : String) : Symbol := Naming.modelClass package "_DEFAULT_TIMESTAMP"
def config (package : String) : Symbol := declared package "Config" configModule
def plugin (package : String) : Symbol := declared package "Plugin" configModule
def authResolver (package : String) : Symbol := declared package "HTTPAuthSchemeResolver" authModule

/-- The function that writes an operation's request. -/
def serializer (package : String) (operation : ShapeId) : Symbol :=
  declared package ("_serialize_" ++ Text.snakeCase operation.name) serializeModule

/-- The function that reads an operation's response. -/
def deserializer (package : String) (operation : ShapeId) : Symbol :=
  declared package ("_deserialize_" ++ Text.snakeCase operation.name) deserializeModule

end ClientGen.Package
