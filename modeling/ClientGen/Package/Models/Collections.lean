import ClientGen.Package.Models.Transfer

/-!
# Collections

Functions that write and read the collections whose values need conversion. Other collections are
plain Python values, and nothing is declared for them.
-/

namespace ClientGen.Package

open Plan

def listWriter (cx : Context) (function : Symbol) (hint : String) (element : Member) :
    Plan Step Unit :=
  define .function function.name "(serializer: $T, schema: $T, value: $L) -> None:"
    [Library.shapeSerializer, Library.schema, hint] do
      line "member_schema = schema.members[\"member\"]" []
      block "with serializer.begin_list(schema, len(value)) as ls:" [] do
        block "for e in value:" [] (writeValue cx element.target "ls" "member_schema" "e")

/-- A null value is skipped; another one is read and added by the given statement. -/
def readUnlessNull (statement : Plan Step Unit) : Plan Step Unit := do
  block "if d.is_null():" [] (line "d.read_null()" [])
  block "else:" [] statement

/-- The function that reads a list or set, which starts as `empty` and grows by the method `add`. -/
def listReader (cx : Context) (function : Symbol) (hint : String) (element : Member)
    (empty add : String) : Plan Step Unit :=
  define .function function.name "(deserializer: $T, schema: $T) -> $L:"
    [Library.shapeDeserializer, Library.schema, hint] do
      line "result: $L = $L" [hint, empty]
      line "member_schema = schema.members[\"member\"]" []
      block "def _read_value(d: $T):" [Library.shapeDeserializer]
        (readUnlessNull
          (lineWith "result.$L($C)" [add] (readValue cx element.target "d" "member_schema")))
      line "deserializer.read_list(schema, _read_value)" []
      line "return result" []

def mapWriter (cx : Context) (function : Symbol) (hint : String) (value : Member) :
    Plan Step Unit :=
  define .function function.name "(serializer: $T, schema: $T, value: $L) -> None:"
    [Library.shapeSerializer, Library.schema, hint] do
      line "value_schema = schema.members[\"value\"]" []
      newline
      block "def _write_value(vs: $T, v: $T) -> None:" [Library.shapeSerializer, Library.any]
        (writeValue cx value.target "vs" "value_schema" "v")
      newline
      block "with serializer.begin_map(schema, len(value)) as m:" [] do
        block "for k, v in value.items():" []
          (line "m.entry(k, lambda vs: _write_value(vs, v))" [])

def mapReader (cx : Context) (function : Symbol) (hint : String) (value : Member) :
    Plan Step Unit :=
  define .function function.name "(deserializer: $T, schema: $T) -> $L:"
    [Library.shapeDeserializer, Library.schema, hint] do
      line "result: $L = \x7b\x7d" [hint]
      line "value_schema = schema.members[\"value\"]" []
      block "def _read_value(k: str, d: $T):" [Library.shapeDeserializer]
        (readUnlessNull (lineWith "result[k] = $C" [] (readValue cx value.target "d" "value_schema")))
      line "deserializer.read_map(schema, _read_value)" []
      line "return result" []

/-- Both functions of a collection. -/
def collectionFunctions (cx : Context) (kind : Kind) (writer reader : Symbol)
    (hint : String) : Plan Step Unit :=
  match kind with
  | .list element => do
    listWriter cx writer hint element
    separate
    listReader cx reader hint element "[]" "append"
  | .set element => do
    listWriter cx writer hint element
    separate
    listReader cx reader hint element "set()" "add"
  | .map _ value => do
    mapWriter cx writer hint value
    separate
    mapReader cx reader hint value
  | _ => return

/-- The functions of a collection, if its symbol has them. -/
def collection (cx : Context) (shape : Shape) : Plan Edit Unit := do
  let symbol ← cx.symbol shape.id
  match symbol.property? Symbol.serializerRole, symbol.property? Symbol.deserializerRole with
  | some writer, some reader =>
    let hint :=
      if cx.isDeferred shape.id then "\"" ++ symbol.name ++ "\"" else symbol.name
    edit writer do
      emit (.importSymbol symbol)
      collectionFunctions cx shape.kind writer reader hint
      separate
  | _, _ => return

end ClientGen.Package
