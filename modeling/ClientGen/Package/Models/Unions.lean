import ClientGen.Package.Models.Structures

/-!
# Unions

A union becomes a class for each member that holds its `value`, a class for variants that are not
known, an alias for all of them together, and a class that reads a variant and insists on exactly
one.
-/

namespace ClientGen.Package

open Plan

/-- The class of one member. -/
def variantClass (cx : Context) (here : String) (m : Member) (variant schema : Symbol) :
    Plan Step Unit := do
  let memberSchema ← memberSchema here schema m.name
  let hint ← typeHint cx here m.target false
  line "@$T" [Library.dataclass]
  define .classDef variant.name ":" [] do
    leadingDocs m.traits.documentation
    defineLine .value "value" ": $L" [hint]
    newline
    block "def serialize(self, serializer: $T):" [Library.shapeSerializer]
      (line "serializer.write_struct($T, self)" [schema])
    newline
    block "def serialize_members(self, serializer: $T):" [Library.shapeSerializer]
      (writeValue cx m.target "serializer" memberSchema "self.value")
    newline
    line "@classmethod" []
    block "def deserialize(cls, deserializer: $T) -> $T:"
      [Library.shapeDeserializer, Library.selfType]
      (lineWith "return cls(value=$C)" [] (readValue cx m.target "deserializer" memberSchema))

def raiseError (message : String) : Plan Step Unit :=
  line "raise $T($S)" [Library.serializationError, message]

def unknownClass (unknown : Symbol) : Plan Step Unit := do
  let refuse := raiseError "Unknown union variants may not be serialized."
  line "@$T" [Library.dataclass]
  define .classDef unknown.name ":" [] do
    docs ("Represents an unknown variant.\n\n" ++
      "If you receive this value, you will need to update your library to receive the\n" ++
      "parsed value.\n\n" ++
      "This value may not be deliberately sent.")
    newline
    defineLine .value "tag" ": str" []
    newline
    block "def serialize(self, serializer: $T):" [Library.shapeSerializer] refuse
    newline
    block "def serialize_members(self, serializer: $T):" [Library.shapeSerializer] refuse
    newline
    line "@classmethod" []
    block "def deserialize(cls, deserializer: $T) -> $T:"
      [Library.shapeDeserializer, Library.selfType]
      (line "raise NotImplementedError()" [])

/-- Reads the variant with the given index. -/
def readVariant (cx : Context) (index : Nat) (m : Member) : Plan Step Unit := do
  let variant ← cx.symbol m.id
  block "case $L:" [toString index]
    (line "self._set_result($L.deserialize(de))" [.name variant])
  newline

def unionReader (cx : Context) (members : List Member) (union reader schema : Symbol) :
    Plan Step Unit :=
  define .classDef reader.name ":" [] do
    defineLine .value "_result" ": $L | None = None" [.name union]
    newline
    block "def deserialize(self, deserializer: $T) -> $L:" [Library.shapeDeserializer, .name union] do
      line "self._result = None" []
      line "deserializer.read_struct($T, self._consumer)" [schema]
      newline
      block "if self._result is None:" []
        (raiseError "Unions must have exactly one value, but found none.")
      newline
      line "return self._result" []
    newline
    block "def _consumer(self, schema: $T, de: $T) -> None:"
      [Library.schema, Library.shapeDeserializer] do
        block "match schema.expect_member_index():" [] do
          members.zipIdx.forM fun (m, index) => readVariant cx index m
          unexpectedMember
    newline
    block "def _set_result(self, value: $L) -> None:" [.name union] do
      block "if self._result is not None:" []
        (raiseError "Unions must have exactly one value, but found more than one.")
      line "self._result = value" []

/-- The classes of all members, in order. -/
def variantClasses (cx : Context) (here : String) (schema : Symbol) :
    List Member → Plan Step (List Symbol)
  | [] => return []
  | m :: rest => do
    let variant ← cx.symbol m.id
    scope (.unionMember m.id) (variantClass cx here m variant schema)
    separate
    let variants ← variantClasses cx here schema rest
    return variant :: variants

/-- The alias of a union: any of its classes. -/
def unionAlias (union : Symbol) (classes : List Symbol) : Plan Step Unit :=
  defineLine .typeAlias union.name (" = " ++ " | ".intercalate (classes.map fun _ => "$L"))
    (classes.map Arg.name)

def unionClasses (cx : Context) (shape : Shape) (members : List Member) : Plan Edit Unit := do
  let symbol ← cx.symbol shape.id
  let schema ← symbol.property Symbol.schemaRole
  let unknown ← symbol.property Symbol.unknownRole
  let reader ← symbol.property Symbol.deserializerRole
  edit symbol do
    scope (.union shape.id) do
      let variants ← variantClasses cx symbol.ns schema members
      unknownClass unknown
      separate
      unionAlias symbol (variants ++ [unknown])
      trailingDocs shape.traits.documentation
      separate
      unionReader cx members symbol reader schema
    separate

end ClientGen.Package
