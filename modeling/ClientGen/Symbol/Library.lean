import ClientGen.Symbol.Basic

/-!
# Symbols that generated code imports

The names that generated code takes from the packages it runs on and from Python's standard
library.
-/

namespace ClientGen.Library

/-! ### The packages that generated code runs on -/

def corePackage : String := "smithy_core"
def httpPackage : String := "smithy_http"
def jsonPackage : String := "smithy_json"
def awsCorePackage : String := "smithy_aws_core"

/-- The versions that generated code is written against. -/
def packageVersion : String := "~=0.1.0"

/-- The dependency on a package, given the name of its root module. -/
def dependency (module : String) : Dependency :=
  { package := Text.replaceChar '_' '-' module, version := packageVersion }

/-- The first part of a module's name. -/
def rootModule (module : String) : String :=
  match Text.cutString? '.' module with
  | some (root, _) => root
  | none => module

/-- A name from one of the packages. -/
def packaged (module name : String) : Symbol :=
  { name, ns := module, dependencies := [dependency (rootModule module)] }

/-- A name from the standard library. -/
def standard (module name : String) : Symbol := { name, ns := module }

def document : Symbol := packaged "smithy_core.documents" "Document"
def schema : Symbol := packaged "smithy_core.schemas" "Schema"
def shapeId : Symbol := packaged "smithy_core.shapes" "ShapeID"
def shapeType : Symbol := packaged "smithy_core.shapes" "ShapeType"
def traitValue : Symbol := packaged "smithy_core.traits" "Trait"
def shapeSerializer : Symbol := packaged "smithy_core.serializers" "ShapeSerializer"
def shapeDeserializer : Symbol := packaged "smithy_core.deserializers" "ShapeDeserializer"
def serializationError : Symbol := packaged "smithy_core.exceptions" "SerializationError"
def smithyException : Symbol := packaged "smithy_core.exceptions" "SmithyException"
def retryError : Symbol := packaged "smithy_core.exceptions" "SmithyRetryException"
def authOption : Symbol := packaged "smithy_core.auth" "AuthOption"
def authParams : Symbol := packaged "smithy_core.auth" "AuthParams"
def interceptor : Symbol := packaged "smithy_core.interceptors" "Interceptor"
def retryStrategy : Symbol := packaged "smithy_core.retries" "RetryStrategy"
def simpleRetryStrategy : Symbol := packaged "smithy_core.retries" "SimpleRetryStrategy"
def clientProtocol : Symbol := packaged "smithy_core.aio.interfaces" "ClientProtocol"
def uri : Symbol := packaged "smithy_core" "URI"
def httpClient : Symbol := packaged "smithy_http.aio.interfaces" "HTTPClient"
def httpResponse : Symbol := packaged "smithy_http.aio.interfaces" "HTTPResponse"
def httpAuthScheme : Symbol := packaged "smithy_http.aio.interfaces.auth" "HTTPAuthScheme"
def aiohttpClient : Symbol := packaged "smithy_http.aio.aiohttp" "AIOHTTPClient"
def httpRequest : Symbol := packaged "smithy_http.aio" "HTTPRequest"
def httpFields : Symbol := packaged "smithy_http" "Fields"
def httpField : Symbol := packaged "smithy_http" "Field"

/-- The schema constant of a prelude shape. -/
def preludeSchema (constant : String) : Symbol := packaged "smithy_core.prelude" constant

def dataclass : Symbol := standard "dataclasses" "dataclass"
def field : Symbol := standard "dataclasses" "field"
def replace : Symbol := standard "dataclasses" "replace"
def any : Symbol := standard "typing" "Any"
def literal : Symbol := standard "typing" "Literal"
def selfType : Symbol := standard "typing" "Self"
def strEnum : Symbol := standard "enum" "StrEnum"
def datetime : Symbol := standard "datetime" "datetime"
def utc : Symbol := standard "datetime" "UTC"
def decimal : Symbol := standard "decimal" "Decimal"
def b64decode : Symbol := standard "base64" "b64decode"
def deepcopy : Symbol := standard "copy" "deepcopy"
def urlparse : Symbol := standard "urllib.parse" "urlparse"
def quote : Symbol := standard "urllib.parse" "quote"
def awaitable : Symbol := standard "collections.abc" "Awaitable"
def callable : Symbol := standard "collections.abc" "Callable"
def sequence : Symbol := standard "collections.abc" "Sequence"

/-- The root modules of the standard library that generated code may import. -/
def standardModules : List String := [
  "abc", "asyncio", "base64", "collections", "copy", "dataclasses", "datetime", "decimal", "enum",
  "functools", "logging", "typing", "urllib", "uuid"]

/-- Is the module part of the standard library? -/
def isStandard (module : String) : Bool := standardModules.contains (rootModule module)

end ClientGen.Library
