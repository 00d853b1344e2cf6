import ClientGen.Integration
import ClientGen.Package.Names

/-!
# The client module

The client class, with an asynchronous method for each operation and one method that carries out
all of them. With a protocol that method serializes, signs, sends with retries and deserializes;
without one it leaves everything to the protocol that the configuration names.
-/

namespace ClientGen.Package

open Plan

/-- The functions that write and read an operation's values, as the method passes them on. -/
def transferFunctions (cx : Context) (here : String) (protocol : Option Protocol)
    (operation : ShapeId) : Plan Step (String × String) :=
  match protocol with
  | none => return ("None", "None")
  | some _ => do
    let write ← reference here (serializer cx.package operation)
    let read ← reference here (deserializer cx.package operation)
    return (write, read)

/-- The parameter for an operation's input, if it has one. -/
def inputParameter (here : String) (input : Option Symbol) : Plan Step String :=
  match input with
  | some s => do
    let type ← reference here s
    return "input: " ++ type ++ ", "
  | none => return ""

def operationMethod (cx : Context) (here : String) (protocol : Option Protocol) (shape : Shape)
    (op : Operation) : Plan Step Unit := do
  let method ← cx.symbol shape.id
  let input ← cx.operationValue op.input
  let output ← cx.operationValue op.output
  let result ← referenceOrNone here output
  let parameter ← inputParameter here input
  let plugin ← reference here (plugin cx.package)
  let functions ← transferFunctions cx here protocol shape.id
  scope (.operation shape.id) do
    block "async def $L(self, $Lplugins: list[$L] | None = None) -> $L:"
      [method.name, parameter, plugin, result] do
        leadingDocs shape.traits.documentation
        line "config = $T(self._config)" [Library.deepcopy]
        block "for plugin in plugins or []:" [] (line "plugin(config)" [])
        block "return await self._execute_operation(" [] do
          line "input=$L," [if input.isSome then "input" else "None"]
          line "config=config," []
          line "operation_name=$S," [shape.id.name]
          line "serialize=$L," [functions.1]
          line "deserialize=$L," [functions.2]
        line ")" []

/-- What the common method does without a protocol. -/
def delegateOperation (cx : Context) : Plan Step Unit := do
  block "if config.protocol is None:" [] do
    line ("raise $T(f\"No protocol is configured for \x7boperation_name\x7d; " ++
      "set Config.protocol.\")") [serviceError cx.package]
  line ("return await config.protocol.send(operation_name=operation_name, input=input, " ++
    "config=config)") []

/-- Sets where the request goes. -/
def resolveEndpoint (cx : Context) : Plan Step Unit := do
  block "if config.endpoint_uri is None:" []
    (line "raise $T(\"No endpoint_uri found on the operation config.\")" [serviceError cx.package])
  line "endpoint = $T(config.endpoint_uri)" [Library.urlparse]
  block "request.destination = $T(" [Library.replace] do
    line "request.destination," []
    line "scheme=endpoint.scheme," []
    line "host=endpoint.hostname or \"\"," []
    line "port=endpoint.port," []
    line "path=endpoint.path.rstrip(\"/\") + request.destination.path," []
  line ")" []

/-- Signs the request with the first auth option that has a scheme. -/
def signRequest : Plan Step Unit := do
  line "auth_options = config.auth_scheme_resolver.resolve_auth_scheme(" []
  line "    auth_parameters=$T(operation=operation_name, config=config)" [Library.authParams]
  line ")" []
  block "for option in auth_options:" [] do
    block "if (scheme := config.auth_schemes.get(option.scheme_id)) is None:" [] (line "continue" [])
    line "identity_resolver = scheme.identity_resolver(config=config)" []
    line ("identity = await identity_resolver.get_identity(" ++
      "properties=option.identity_properties)") []
    line ("request = await scheme.signer.sign(request=request, identity=identity, " ++
      "properties=option.signer_properties)") []
    line "break" []

/-- Sends the request until a response can be read or there is no further retry. -/
def sendWithRetries (cx : Context) : Plan Step Unit := do
  line "retry_token = config.retry_strategy.acquire_initial_retry_token()" []
  block "while True:" [] do
    block "try:" [] do
      line "response = await config.http_client.send(request)" []
      line "return await deserialize(response, config)" []
    block "except Exception as error:" [] do
      block "if isinstance(error, $T) and error.fault == \"client\":" [apiError cx.package]
        (line "raise" [])
      block "try:" [] do
        line "retry_token = config.retry_strategy.refresh_retry_token_for_retry(" []
        line "    token_to_renew=retry_token, error=error" []
        line ")" []
      block "except $T:" [Library.retryError] (line "raise error from None" [])
      emit (.importModule "asyncio")
      line "await asyncio.sleep(retry_token.retry_delay)" []

/-- What the common method does with a protocol. -/
def carryOutOperation (cx : Context) : Plan Step Unit := do
  block "if serialize is None or deserialize is None:" [] do
    line "raise $T(f\"\x7boperation_name\x7d has no serializer for this client's protocol.\")"
      [serviceError cx.package]
  line "request = await serialize(input, config)" []
  newline
  resolveEndpoint cx
  newline
  signRequest
  newline
  sendWithRetries cx

/-- The method that carries out all operations. -/
def executeMethod (cx : Context) (here : String) (protocol : Option Protocol) :
    Plan Step Unit := do
  let callable ← reference here Library.callable
  let awaitable ← reference here Library.awaitable
  let config ← reference here (config cx.package)
  let request ← reference here Library.httpRequest
  let response ← reference here Library.httpResponse
  block "async def _execute_operation[Input, Output](" [] do
    line "self," []
    line "input: Input," []
    line "config: $L," [config]
    line "operation_name: str," []
    line "serialize: $1L[[Input, $3L], $2L[$4L]] | None," [callable, awaitable, config, request]
    line "deserialize: $1L[[$4L, $3L], $2L[Output]] | None," [callable, awaitable, config, response]
  block ") -> Output:" [] do
    if protocol.isNone then delegateOperation cx else carryOutOperation cx

def clientClass (cx : Context) (protocol : Option Protocol) : Plan Edit Symbol := do
  let client ← cx.symbol cx.service.id
  let operations ← cx.operations
  let here := client.ns
  edit client do
    scope (.clientClass cx.service.id) do
      define .classDef client.name ":" [] do
        leadingDocs cx.service.traits.documentation
        block "def __init__(self, config: $T | None = None, plugins: list[$T] | None = None):"
          [config cx.package, plugin cx.package] do
            line "self._config = config or $T()" [config cx.package]
            block "for plugin in plugins or []:" [] (line "plugin(self._config)" [])
        operations.forM fun (shape, op) => do
          newline
          operationMethod cx here protocol shape op
        newline
        executeMethod cx here protocol
  return client

end ClientGen.Package
