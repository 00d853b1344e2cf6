import ClientGen.Integration
import ClientGen.Package.Names

/-!
# HTTP protocols

Functions that turn an operation's input into an HTTP request and a response into its output, for
protocols that send the whole input as the body.
-/

namespace ClientGen

/-- Where requests go. -/
inductive Routing where
  /-- The operation's `http` trait gives method and target. -/
  | rest
  /-- The names of service and operation give the target. -/
  | rpc
deriving DecidableEq, Repr

structure HttpProtocol where
  id : ShapeId
  routing : Routing
  contentType : String
  /-- The class that encodes and decodes bodies. -/
  codec : Symbol
  /-- A further header of requests. -/
  header : Option (String × String) := none

/-- An HTTP method and the target it is applied to. -/
structure RequestLine where
  method : String
  uri : String

namespace Package

open Plan

/-- The header that names the error of a response. -/
def errorTypeHeader : String := "x-amzn-errortype"

/-- The value of the `http` trait. -/
def httpTrait? (value : Json) : Option RequestLine := do
  let fields ← value.fields ["method", "uri"]
  let method ← (← fields.getD 0 none).text?
  let uri ← (← fields.getD 1 none).text?
  return { method, uri }

/-- The method and target of an operation's requests. -/
def requestLine (routing : Routing) (service operation : Shape) : Except Error RequestLine :=
  match routing with
  | .rpc => .ok {
      method := "POST"
      uri := "/service/" ++ service.id.name ++ "/operation/" ++ operation.id.name }
  | .rest =>
    match operation.traits.get? TraitId.http with
    | none => .ok { method := "POST", uri := "/" }
    | some value =>
      match httpTrait? value with
      | some line => .ok line
      | none => .error (.model (.traitValue TraitId.http "expected a method and a uri"))

/-- The labels of a path: texts in braces, without plus signs at their end. -/
def pathLabels (path : List Char) : List (List Char) :=
  ((Text.pieces '\x7b' path).drop 1).filterMap fun piece =>
    (Text.cut? '\x7d' piece).map fun (label, _) => Text.dropEndWhile (· == '+') label

def inBraces (cs : List Char) : List Char := '\x7b' :: cs ++ ['\x7d']

/-- A label as the path has it, with a plus sign if it has that form anywhere. -/
def labelToken (path label : List Char) : String :=
  let greedy := inBraces (label ++ ['+'])
  String.ofList (if Text.hasPart greedy path then greedy else inBraces label)

/-- The member of an operation's input that a label stands for. -/
def labelMember (cx : Context) (operation : ShapeId) (input : Option ShapeId) (label : List Char) :
    Except Error Member :=
  let name := String.ofList label
  match (input.bind cx.model.get?).bind fun s => s.member? name with
  | some m => .ok m
  | none => .error (.invalidModel (.unmatchedLabel operation name))

/-- The path and query of a request, the query as Python text. -/
def splitTarget (uri : String) : String × String :=
  match Text.cutString? '?' uri with
  | some (path, query) => (path, Text.quote query)
  | none => (uri, "None")

/-- The path of a request, with members of the input in place of labels. -/
def requestPath (cx : Context) (operation : ShapeId) (input : Option ShapeId) (path : String) :
    Plan Step Unit := do
  inline "path = $S" [path]
  (pathLabels path.toList).forM fun label => do
    let m ← labelMember cx operation input label
    inline ".replace($S, $T(str(input.$L), safe=\"\"))"
      [labelToken path.toList label, Library.quote, cx.memberName m]
  newline

def requestBody (p : HttpProtocol) (hasInput : Bool) : Plan Step Unit :=
  if hasInput then line "body = $T().serialize(input)" [p.codec] else line "body = b\"\"" []

/-- The further header of requests, if there is one. -/
def headerEntry (p : HttpProtocol) : Plan Step Unit :=
  match p.header with
  | some (name, value) => inline ", $T(name=$S, values=[$S])" [Library.httpField, name, value]
  | none => Plan.pure ()

def requestWriter (p : HttpProtocol) (cx : Context) (here : String) (shape : Shape)
    (op : Operation) : Plan Step Unit := do
  let input ← cx.operationValue op.input
  let request ← requestLine p.routing cx.service shape
  let target := splitTarget request.uri
  let inputType ← referenceOrNone here input
  define .asyncFunction (serializer cx.package shape.id).name "(input: $L, config: $T) -> $T:"
    [inputType, config cx.package, Library.httpRequest] do
      requestPath cx shape.id (if input.isSome then op.input else none) target.1
      requestBody p input.isSome
      block "return $T(" [Library.httpRequest] do
        line "method=$S," [request.method]
        line "destination=$T(host=\"\", path=path, query=$L)," [Library.uri, target.2]
        inline "fields=$T([$T(name=\"Content-Type\", values=[$S])"
          [Library.httpFields, Library.httpField, p.contentType]
        headerEntry p
        line "])," []
        line "body=body," []
      line ")" []

/-- The errors of an operation: its own, then those of its service. -/
def operationErrors (service : Shape) (op : Operation) : List ShapeId :=
  match service.kind with
  | .service s => op.errors ++ s.errors
  | _ => op.errors

/-- The value that a response holds. -/
def responseValue (p : HttpProtocol) (output : Option Symbol) : Plan Step Unit :=
  match output with
  | some s => line "return $T().deserialize(body, $T)" [p.codec, s]
  | none => line "return None" []

/-- The entry of an error in the table of those that a response may tell of. -/
def errorEntry (cx : Context) (here : String) (id : ShapeId) : Plan Step String := do
  let s ← cx.symbol id
  let name ← reference here s
  return Text.quote id.name ++ ": " ++ name

def responseReader (p : HttpProtocol) (cx : Context) (here : String) (shape : Shape)
    (op : Operation) : Plan Step Unit := do
  let output ← cx.operationValue op.output
  let outputType ← referenceOrNone here output
  let errors ← (operationErrors cx.service op).mapM (errorEntry cx here)
  define .asyncFunction (deserializer cx.package shape.id).name
    "(http_response: $T, config: $T) -> $L:"
    [Library.httpResponse, config cx.package, outputType] do
      line "body = await http_response.consume_body_async()" []
      block "if http_response.status >= 300:" [] do
        line "raise _deserialize_error(http_response, body, \x7b$L\x7d)" [", ".intercalate errors]
      responseValue p output

/-- Takes the error's name from the header, for protocols that have it there. -/
def errorCode (p : HttpProtocol) : Plan Step Unit :=
  match p.routing with
  | .rest =>
    block "if $S in http_response.fields:" [errorTypeHeader]
      (line "code = http_response.fields[$S].as_string()" [errorTypeHeader])
  | .rpc => Plan.pure ()

/-- The function that turns a response into the error it tells of. -/
def errorReader (p : HttpProtocol) (cx : Context) : Plan Step Unit :=
  define .function "_deserialize_error"
    "(http_response: $T, body: bytes, errors: dict[str, type[$T[$T]]]) -> $T[$T]:"
    [Library.httpResponse, apiError cx.package, Library.any, apiError cx.package, Library.any] do
      line "code = \"\"" []
      errorCode p
      block "if not code and body:" [] do
        line "code = str($T().deserialize(body, $T).as_value().get(\"__type\", \"\"))"
          [p.codec, Library.document]
      line "code = code.split(\":\")[0].split(\"#\")[-1]" []
      block "if code in errors:" []
        (line "return $T().deserialize(body, errors[code])" [p.codec])
      line "return $T(message=f\"Unknown error for \x7bcode\x7d: \x7bbody!r\x7d\")"
        [unknownApiError cx.package]

/-- The functions that write requests, for all operations. -/
def requestWriters (p : HttpProtocol) (cx : Context) (here : String) : Plan Step Unit := do
  let operations ← cx.operations
  operations.forM fun (shape, op) => do
    requestWriter p cx here shape op
    separate

/-- The functions that read responses, for all operations. -/
def responseReaders (p : HttpProtocol) (cx : Context) (here : String) : Plan Step Unit := do
  let operations ← cx.operations
  operations.forM fun (shape, op) => do
    responseReader p cx here shape op
    separate
  errorReader p cx

/-- A module of the package that a protocol writes. -/
def protocolModule (cx : Context) (p : Protocol) (submodule : String)
    (write : Context → String → Plan Step Unit) : Plan Edit Unit :=
  let place := Naming.declared cx.package "" submodule
  edit place do
    p.dependencies.forM fun d => emit (.dependency d)
    write cx place.ns

/-- The modules that hold a protocol's functions. -/
def protocolModules (cx : Context) (protocol : Option Protocol) : Plan Edit Unit :=
  match protocol with
  | none => return
  | some p => do
    protocolModule cx p serializeModule p.serializers
    protocolModule cx p deserializeModule p.deserializers

end Package

/-- The protocol for use in a run. -/
def HttpProtocol.protocol (p : HttpProtocol) : Protocol where
  id := p.id
  dependencies := p.codec.dependencies
  serializers := Package.requestWriters p
  deserializers := Package.responseReaders p

end ClientGen
