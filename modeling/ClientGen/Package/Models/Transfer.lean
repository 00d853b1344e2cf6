import ClientGen.Context

/-!
# Reading and writing values

The statement that writes a value of a target to a serializer, and the expression that reads one
from a deserializer.
-/

namespace ClientGen.Package

open Plan

/-- Operations and services have no values. -/
def noValue (kind : Kind) (target : ShapeId) : Error :=
  .invalidModel (.memberTarget kind.typeName target)

/-- Writes `value` with the given schema. -/
def writeValue (cx : Context) (target : ShapeId) (serializer schema value : String) :
    Plan Step Unit := do
  let shape ← cx.shape target
  match shape.kind with
  | .scalar type => line "$L.write_$L($L, $L)" [serializer, type.methodSuffix, schema, value]
  | .enumeration _ => line "$L.write_string($L, $L)" [serializer, schema, value]
  | .struct _ | .union _ => line "$L.write_struct($L, $L)" [serializer, schema, value]
  | .list _ | .set _ =>
    let s ← cx.symbol target
    match s.property? Symbol.serializerRole with
    | some helper => line "$T($L, $L, $L)" [helper, serializer, schema, value]
    | none => line "$L.write_list($L, $L)" [serializer, schema, value]
  | .map _ _ =>
    let s ← cx.symbol target
    match s.property? Symbol.serializerRole with
    | some helper => line "$T($L, $L, $L)" [helper, serializer, schema, value]
    | none => line "$L.write_map($L, $L)" [serializer, schema, value]
  | .operation _ | .service _ => fail (noValue shape.kind target)

/-- Reads a value with the given schema. -/
def readValue (cx : Context) (target : ShapeId) (deserializer schema : String) :
    Plan Step Unit := do
  let shape ← cx.shape target
  match shape.kind with
  | .scalar type => inline "$L.read_$L($L)" [deserializer, type.methodSuffix, schema]
  | .enumeration _ =>
    let s ← cx.symbol target
    inline "$T($L.read_string($L))" [s, deserializer, schema]
  | .struct _ =>
    let s ← cx.symbol target
    inline "$T.deserialize($L)" [s, deserializer]
  | .union _ =>
    let s ← cx.symbol target
    let reader ← s.property Symbol.deserializerRole
    inline "$T().deserialize($L)" [reader, deserializer]
  | .list _ | .set _ =>
    let s ← cx.symbol target
    match s.property? Symbol.deserializerRole with
    | some helper => inline "$T($L, $L)" [helper, deserializer, schema]
    | none => inline "$L.read_list($L)" [deserializer, schema]
  | .map _ _ =>
    let s ← cx.symbol target
    match s.property? Symbol.deserializerRole with
    | some helper => inline "$T($L, $L)" [helper, deserializer, schema]
    | none => inline "$L.read_map($L)" [deserializer, schema]
  | .operation _ | .service _ => fail (noValue shape.kind target)

end ClientGen.Package
