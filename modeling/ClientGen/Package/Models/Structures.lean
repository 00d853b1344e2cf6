import ClientGen.Package.Models.Fields
import ClientGen.Package.Models.Transfer

/-!
# Structures and enumerations

A structure becomes a dataclass that writes and reads its members. Members are read by the index
that the schema gives them; an index without a case is logged and skipped. An enumeration becomes a
`StrEnum`.
-/

namespace ClientGen.Package

open Plan

/-- The fault of an error: the client's or the server's. -/
def errorFault (s : Shape) : Except Error String :=
  let found := (s.traits.get? TraitId.error).bind Json.text?
  match found with
  | some "client" => .ok "client"
  | some "server" => .ok "server"
  | _ => .error (.invalidModel (.errorFault s.id found))

/-- The fields that all error classes have. -/
def errorFields (s : Shape) : Plan Step Unit := do
  let fault ← errorFault s
  let code := s.id.name
  defineLine .value "code" ": $T[$S] = $S" [Library.literal, code, code]
  defineLine .value "fault" ": $T[\"client\", \"server\"] | None = $S" [Library.literal, fault]
  newline

/-- Fields that must be given come first. -/
def fieldOrder (members : List Member) : List Member :=
  let mandatory (m : Member) := m.isRequired && (defaultValue? m).isNone
  members.filter mandatory ++ members.filter fun m => !mandatory m

/-- A field with its type, and the value it has when it is not given. -/
def fieldLine (name hint : String) (default : Option String) : Plan Step Unit :=
  match default with
  | some expression => defineLine .value name ": $L = $L" [hint, expression]
  | none => defineLine .value name ": $L" [hint]

def memberField (cx : Context) (here : String) (m : Member) : Plan Step Unit := do
  let optional := isOptional m
  let hint ← typeHint cx here m.target optional
  let given ← memberDefault cx here m
  fieldLine (cx.memberName m) hint (given <|> if optional then some "None" else none)
  trailingDocs m.traits.documentation
  newline

/-- Writes a member of `self`; one that may be absent only if it is there. -/
def writeMember (cx : Context) (here : String) (schema : Symbol) (m : Member) :
    Plan Step Unit := do
  let name := cx.memberName m
  let memberSchema ← memberSchema here schema m.name
  let write := writeValue cx m.target "serializer" memberSchema ("self." ++ name)
  if isOptional m then block "if self.$L is not None:" [name] write else write

/-- What is done with a member that no case is for. -/
def unexpectedMember : Plan Step Unit :=
  block "case _:" [] (line "logger.debug($S, schema)" ["Unexpected member schema: %s"])

/-- Reads the member with the given index into the keyword arguments. -/
def readMember (cx : Context) (here : String) (schema : Symbol) (index : Nat) (m : Member) :
    Plan Step Unit := do
  let name := cx.memberName m
  let memberSchema ← memberSchema here schema m.name
  block "case $L:" [toString index]
    (lineWith "kwargs[$S] = $C" [name] (readValue cx m.target "de" memberSchema))
  newline

/-- Chooses what to read by the index of the member. -/
def memberDispatch (cx : Context) (here : String) (schema : Symbol) (members : List Member) :
    Plan Step Unit :=
  block "match schema.expect_member_index():" [] do
    members.zipIdx.forM fun (m, index) => readMember cx here schema index m
    unexpectedMember

def structureBody (cx : Context) (here : String) (shape : Shape) (members : List Member)
    (schema : Symbol) : Plan Step Unit := do
  leadingDocs shape.traits.documentation
  onlyIf shape.isError (errorFields shape)
  (fieldOrder members).forM (memberField cx here)
  block "def serialize(self, serializer: $T):" [Library.shapeSerializer]
    (line "serializer.write_struct($T, self)" [schema])
  newline
  block "def serialize_members(self, serializer: $T):" [Library.shapeSerializer]
    (if members.isEmpty then line "pass" [] else members.forM (writeMember cx here schema))
  newline
  line "@classmethod" []
  block "def deserialize(cls, deserializer: $T) -> $T:" [Library.shapeDeserializer, Library.selfType]
    (line "return cls(**cls.deserialize_kwargs(deserializer))" [])
  newline
  line "@classmethod" []
  block "def deserialize_kwargs(cls, deserializer: $T) -> dict[str, $T]:"
    [Library.shapeDeserializer, Library.any] do
      line "kwargs: dict[str, $T] = \x7b\x7d" [Library.any]
      newline
      block "def _consumer(schema: $T, de: $T) -> None:" [Library.schema, Library.shapeDeserializer]
        (memberDispatch cx here schema members)
      newline
      line "deserializer.read_struct($T, consumer=_consumer)" [schema]
      line "return kwargs" []

def structureClass (cx : Context) (shape : Shape) (members : List Member) : Plan Edit Unit := do
  let symbol ← cx.symbol shape.id
  let schema ← symbol.property Symbol.schemaRole
  let body := structureBody cx symbol.ns shape members schema
  edit symbol do
    scope (.struct shape.id) do
      line "@$T(kw_only=True)" [Library.dataclass]
      if shape.isError then
        define .classDef symbol.name "($T[$T[$S]]):"
          [apiError cx.package, Library.literal, shape.id.name] body
      else define .classDef symbol.name ":" [] body
    separate

def enumConstant (v : EnumValue) : Plan Step Unit := do
  defineLine .value (constantName v.name) " = $S" [v.value]
  trailingDocs v.documentation

def enumClass (cx : Context) (shape : Shape) (values : List EnumValue) : Plan Edit Unit := do
  let symbol ← cx.symbol shape.id
  edit symbol do
    scope (.enumeration shape.id) do
      define .classDef symbol.name "($T):" [Library.strEnum] do
        leadingDocs shape.traits.documentation
        onlyIf values.isEmpty (line "pass" [])
        values.forM enumConstant
    separate

end ClientGen.Package
