import ClientGen.Model.Walk

/-!
# Emission order

The order in which the shapes that a root reaches are written: every shape after the shapes it
refers to, as far as that is possible. Shapes on a reference cycle cannot be ordered that way; they
come last, in order of their ids, and references to them are written deferred.
-/

namespace ClientGen

/-- The nodes of a graph in order, each with its successors in order. -/
structure ReferenceGraph where
  edges : List (ShapeId × List ShapeId)

/-- The references among the shapes that `root` reaches. -/
def Model.referenceGraph (m : Model) (root : ShapeId) : Except Error ReferenceGraph := do
  let nodes ← m.walk root
  let edges ← nodes.mapM fun id => do
    let s ← m.expect id
    return (id, (s.references.filter nodes.contains).eraseDups)
  return ⟨edges⟩

namespace ReferenceGraph

def nodes (g : ReferenceGraph) : List ShapeId := g.edges.map (·.1)

def successors (g : ReferenceGraph) (id : ShapeId) : List ShapeId :=
  ((g.edges.find? fun e => e.1 == id).map (·.2)).getD []

/-- How far a depth-first search has come: the nodes it has entered, and those it has left, the
last one first. -/
structure Search where
  entered : List ShapeId := []
  finished : List ShapeId := []

/-- Searches from a node; `fuel` bounds the length of the path to it. -/
def visit (g : ReferenceGraph) : Nat → Search → ShapeId → Search
  | 0, search, _ => search
  | fuel + 1, search, id =>
    if search.entered.contains id then search
    else
      let search := (g.successors id).foldl (visit g fuel)
        { search with entered := id :: search.entered }
      { search with finished := id :: search.finished }

/-- Searches from several nodes in turn. A path without repetition is no longer than the list of
nodes. -/
def visitAll (g : ReferenceGraph) (ids : List ShapeId) : Search :=
  ids.foldl (g.visit (g.edges.length + 1)) {}

/-- All nodes, each after the nodes it leads to unless one of these leads back. -/
def finishOrder (g : ReferenceGraph) : List ShapeId := (g.visitAll g.nodes).finished.reverse

/-- Does a path of at least one edge lead from the node to itself? -/
def onCycle (g : ReferenceGraph) (id : ShapeId) : Bool :=
  (g.visitAll (g.successors id)).entered.contains id

end ReferenceGraph

/-- The order in which shapes are written. -/
structure EmissionOrder where
  /-- The shapes on no cycle, each after the shapes it refers to. -/
  ordered : List ShapeId
  /-- The shapes on a cycle, by id. -/
  recursive : List ShapeId

namespace EmissionOrder

/-- All shapes. -/
def all (o : EmissionOrder) : List ShapeId := o.ordered ++ o.recursive

def isRecursive (o : EmissionOrder) (id : ShapeId) : Bool := o.recursive.contains id

def ofGraph (g : ReferenceGraph) : EmissionOrder :=
  let recursive := g.nodes.filter g.onCycle
  { ordered := g.finishOrder.filter fun id => !recursive.contains id
    recursive := Model.sortIds recursive }

/-- The first of the shapes with a reference that is neither recursive nor placed before it. -/
def misplaced? (g : ReferenceGraph) (o : EmissionOrder) (placed : List ShapeId) :
    List ShapeId → Option ShapeId
  | [] => none
  | id :: rest =>
    if (g.successors id).all fun t => o.isRecursive t || placed.contains t then
      misplaced? g o (id :: placed) rest
    else some id

/-- The emission order of what `root` reaches. -/
def of (m : Model) (root : ShapeId) : Except Error EmissionOrder := do
  let g ← m.referenceGraph root
  let o := ofGraph g
  match misplaced? g o [] o.ordered with
  | none => return o
  | some id => throw (.unclassifiedCycle id)

end EmissionOrder

end ClientGen
