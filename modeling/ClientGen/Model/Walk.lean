import ClientGen.Model.Basic

/-!
# What a root reaches

`Model.walk` collects the declared shapes that references lead to from a root, and reports a
reference that leads nowhere. `Model.prune` keeps only those shapes.

The walk is depth first and follows the last reference of a shape first; of several dangling
references this decides which one is reported.
-/

namespace ClientGen.Model

/-- The shapes that a shape refers to, in order. -/
def resolveReferences (m : Model) (s : Shape) : Except Error (List Shape) :=
  s.references.mapM fun target =>
    match m.get? target with
    | some next => .ok next
    | none => .error (.invalidModel (.danglingReference s.id target))

/-- A shape that the walk passes over: it is not declared, or has been visited. -/
def isPassed (m : Model) (seen : List ShapeId) (s : Shape) : Bool :=
  !m.declares s.id || seen.contains s.id

/-- Visits the shapes on the stack and all they lead to; `fuel` bounds the number of visits, each
of which is of another declared shape. -/
def walkFrom (m : Model) : Nat → List Shape → List ShapeId → Except Error (List ShapeId)
  | 0, _, seen => .ok seen
  | fuel + 1, stack, seen =>
    match stack.dropWhile (m.isPassed seen) with
    | [] => .ok seen
    | s :: rest => do
      let next ← m.resolveReferences s
      walkFrom m fuel (next.reverse ++ rest) (s.id :: seen)

/-- The ids of the declared shapes reachable from `root`, in order. -/
def walk (m : Model) (root : ShapeId) : Except Error (List ShapeId) := do
  let s ← m.expect root
  let seen ← m.walkFrom (m.shapes.length + 1) [s] []
  return sortIds seen

/-- The model restricted to what `root` reaches. -/
def prune (m : Model) (root : ShapeId) : Except Error Model := do
  let kept ← m.walk root
  return m.keep fun s => kept.contains s.id

end ClientGen.Model
