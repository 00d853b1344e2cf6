import ClientGen.Symbol.Naming

/-!
# The symbol table

Looks up the symbol of a shape or union member and remembers it. Members of other shapes stand for
their targets. A declared name belongs to the first id that was resolved to it; another id that
comes to the same name is a collision.

* `Provider.symbol`: the lookup.
-/

namespace ClientGen

/-- How symbols are made. -/
structure Provider where
  /-- The package that declared names belong to. -/
  package : String
  /-- The symbol put in place of the one that a shape has by default. -/
  decorate : ShapeId → Symbol → Symbol := fun _ s => s
  /-- The attribute of a member, by its declared name. -/
  memberName : String → String := Naming.memberName

/-- The lookups made so far. -/
structure Table where
  cache : List (ShapeId × Symbol) := []
  /-- The id that each declared name, a module with a name in it, belongs to. -/
  declared : List ((String × String) × ShapeId) := []
  /-- The ids whose lookup is going on. -/
  resolving : List ShapeId := []

namespace Table

def cached? (t : Table) (id : ShapeId) : Option Symbol :=
  (t.cache.find? fun e => e.1 == id).map (·.2)

def owner? (t : Table) (name : String × String) : Option ShapeId :=
  (t.declared.find? fun e => e.1 == name).map (·.2)

end Table

/-- Computations on the symbol table; the table is kept when they fail. -/
abbrev Names := ExceptT Error (StateM Table)

namespace Names

/-- A computation that does not use the table. -/
def ofExcept (r : Except Error α) : Names α :=
  match r with
  | .ok a => pure a
  | .error e => throw e

/-- Remembers a symbol, unless the id has one, and returns the one that is remembered. -/
def remember (id : ShapeId) (s : Symbol) : Names Symbol := do
  match (← get).cached? id with
  | some before => return before
  | none =>
    modify fun t => { t with cache := t.cache ++ [(id, s)] }
    return s

/-- Registers a declared name for an id. -/
def claim (id : ShapeId) (name : String × String) : Names Unit := do
  match (← get).owner? name with
  | none => modify fun t => { t with declared := t.declared ++ [(name, id)] }
  | some first => unless first == id do throw (.namingCollision first id name.1 name.2)

end Names

namespace Provider

/-- The symbol of a shape or union member by default; `lookup` gives the symbols of other shapes. -/
def defaultSymbol (p : Provider) (m : Model) (lookup : ShapeId → Names Symbol) (id : ShapeId) :
    Names Symbol := do
  let shape ← Names.ofExcept (m.expect id)
  match id.member with
  | some name =>
    match shape.kind, shape.member? name with
    | .union _, some _ => return Naming.variant p.package shape.id name
    | _, _ => throw (.shapeNotFound id)
  | none =>
    match shape.kind with
    | .struct _ | .enumeration _ => return Naming.valueClass p.package id
    | .union _ => return Naming.unionType p.package id
    | .list e =>
      let element ← lookup e.target
      let name := "list[" ++ element.name ++ "]"
      Names.ofExcept (Naming.collection p.package m id name element e.target)
    | .set e =>
      let element ← lookup e.target
      let name := "set[" ++ element.name ++ "]"
      Names.ofExcept (Naming.collection p.package m id name element e.target)
    | .map _ v =>
      let value ← lookup v.target
      let name := "dict[str, " ++ value.name ++ "]"
      Names.ofExcept (Naming.collection p.package m id name value v.target)
    | .scalar type =>
      return (Naming.scalar type).withProperty Symbol.schemaRole (Naming.schema p.package id)
    | .operation _ => return Naming.operationMethod p.package id
    | .service _ => return Naming.serviceClient p.package id

/-- The member that an id stands for, if its target's symbol is the id's own: members of unions
are classes, all others stand for their targets. -/
def standsFor? (m : Model) (id : ShapeId) : Option Member := do
  let member ← m.member? id
  let shape ← m.get? id
  match shape.kind with
  | .union _ => none
  | _ => some member

/-- Resolves an id that stands for itself, with a mark on it for the time of the lookup. -/
def resolve (p : Provider) (m : Model) (lookup : ShapeId → Names Symbol) (id : ShapeId) :
    Names Symbol := do
  if (← get).resolving.contains id then throw (.invalidModel (.cyclicSymbol id))
  modify fun t => { t with resolving := t.resolving ++ [id] }
  let clear : Names Unit :=
    modify fun t => { t with resolving := t.resolving.filter fun r => r != id }
  let inner ← tryCatch (p.defaultSymbol m lookup id) fun e => do
    clear
    throw e
  clear
  let s := p.decorate id inner
  s.declarations.forM (Names.claim id)
  Names.remember id s

/-- The lookup, nested at most `fuel` deep. -/
def lookup (p : Provider) (m : Model) : Nat → ShapeId → Names Symbol
  | 0, id => throw (.invalidModel (.endlessSymbol id))
  | fuel + 1, id => do
    match (← get).cached? id with
    | some s => return s
    | none =>
      match standsFor? m id with
      | some member =>
        let s ← lookup p m fuel member.target
        Names.remember id s
      | none => p.resolve m (lookup p m fuel) id

/-- A bound on the nesting of lookups. From an id, each step leads to one other id, that of an
element or of a member's target; a chain that comes back to a collection is cut there, so it passes
every shape and member at most twice. -/
def depth (m : Model) : Nat :=
  2 * (m.shapes.length + (m.shapes.flatMap Shape.members).length) + 4

def symbol (p : Provider) (m : Model) (id : ShapeId) : Names Symbol := p.lookup m (depth m) id

end Provider

end ClientGen
