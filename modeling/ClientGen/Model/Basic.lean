import ClientGen.Shape

/-!
# Models

A model is a list of shapes with distinct ids, an index that gives the place of each id in it, and
metadata. Ids that the model does not declare may name shapes of the prelude.
-/

namespace ClientGen

/-- The ids of shapes, each with its place. -/
def Model.places (shapes : List Shape) : List (ShapeId × Nat) := (shapes.map Shape.id).zipIdx

/-- Shapes in the order they were added, each id once, and metadata. -/
structure Model where
  shapes : List Shape := []
  /-- Where the shape of an id stands. -/
  index : List (ShapeId × Nat) := Model.places shapes
  metadata : Json.Object := []
  distinct : (shapes.map Shape.id).Nodup := by simp
  indexed : index = Model.places shapes := by exact rfl

namespace Model

/-- The model without shapes. -/
def empty : Model where
  shapes := []
  distinct := List.Pairwise.nil

def position? (m : Model) (id : ShapeId) : Option Nat :=
  (m.index.find? fun e => e.1 == id).map (·.2)

def declared? (m : Model) (id : ShapeId) : Option Shape :=
  (m.position? id).bind fun i => m.shapes[i]?

def declares (m : Model) (id : ShapeId) : Bool := (m.position? id).isSome

/-- The index tells the first place where the id stands. -/
theorem position?_eq (m : Model) (id : ShapeId) :
    m.position? id = (m.shapes.map Shape.id).findIdx? (· == id) := by
  unfold position?
  rw [m.indexed, places, List.findIdx?_eq_fst_find?_zipIdx]

theorem declares_eq (m : Model) (id : ShapeId) :
    m.declares id = m.shapes.any fun s => s.id == id := by
  unfold declares
  rw [position?_eq, List.findIdx?_isSome, List.any_map]
  rfl

theorem declared?_eq (m : Model) (id : ShapeId) :
    m.declared? id = m.shapes.find? fun s => s.id == id := by
  unfold declared?
  rw [position?_eq, List.findIdx?_map]
  induction m.shapes with
  | nil => rfl
  | cons s rest ih =>
    cases h : s.id == id with
    | true => simp [List.findIdx?_cons, h]
    | false => simpa [List.findIdx?_cons, h, Option.bind_map, Function.comp_def] using ih

/-- The shape at the place that the index tells has the id. -/
theorem id_of_position? {m : Model} {id : ShapeId} {i : Nat} (h : m.position? id = some i) :
    (m.shapes.map Shape.id)[i]? = some id := by
  rw [position?_eq] at h
  obtain ⟨hi, heq, -⟩ := List.findIdx?_eq_some_iff_getElem.1 h
  rw [List.getElem?_eq_getElem hi, eq_of_beq heq]

theorem not_mem_of_not_declares {m : Model} {id : ShapeId} (h : ¬ m.declares id = true) :
    id ∉ m.shapes.map Shape.id := by
  simpa [declares_eq] using h

/-- Adds a shape at the end; its id must be new. -/
def add (m : Model) (s : Shape) : Except Error Model :=
  if h : m.declares s.id = true then .error (.invalidModel (.duplicateShape s.id))
  else .ok {
    shapes := m.shapes ++ [s]
    index := m.index ++ [(s.id, m.shapes.length)]
    metadata := m.metadata
    distinct := by
      have hs := not_mem_of_not_declares h
      rw [List.map_append, List.nodup_append]
      refine ⟨m.distinct, by simp, ?_⟩
      intro a ha b hb
      simp only [List.map_cons, List.map_nil, List.mem_singleton] at hb
      rintro rfl
      exact hs (hb ▸ ha)
    indexed := by
      rw [m.indexed, places, places, List.map_append, List.zipIdx_append, List.length_map]
      simp only [List.map_cons, List.map_nil, List.zipIdx_cons, List.zipIdx_nil, Nat.zero_add] }

/-- A shape put in the place of one with the same id leaves the ids as they are. -/
theorem map_id_set {m : Model} {s : Shape} {i : Nat} (h : m.position? s.id = some i) :
    (m.shapes.set i s).map Shape.id = m.shapes.map Shape.id := by
  have hid := id_of_position? h
  rw [List.map_set]
  apply List.ext_getElem?
  intro j
  rw [List.getElem?_set]
  split
  · next hij =>
    obtain ⟨hi, -⟩ := List.getElem?_eq_some_iff.1 hid
    rw [if_pos hi, ← hij, hid]
  · rfl

/-- Puts a new definition in the place of the one with the same id, which must be present. -/
def replace (m : Model) (s : Shape) : Except Error Model :=
  match h : m.position? s.id with
  | some i => .ok {
      shapes := m.shapes.set i s
      index := m.index
      metadata := m.metadata
      distinct := by rw [map_id_set h]; exact m.distinct
      indexed := by rw [places, map_id_set h]; exact m.indexed }
  | none => .error (.shapeNotFound s.id)

def setMetadata (m : Model) (key : String) (value : Json) : Model :=
  { m with metadata := Json.Object.insert key value m.metadata }

/-- The shapes that satisfy `p`, in order, with the metadata. -/
def keep (m : Model) (p : Shape → Bool) : Model where
  shapes := m.shapes.filter p
  metadata := m.metadata
  distinct := m.distinct.sublist (List.filter_sublist.map _)

/-- The declared or prelude shape of an id. A member's id resolves to the shape that holds it. -/
def get? (m : Model) (id : ShapeId) : Option Shape :=
  match m.declared? id.root with
  | some s => some s
  | none => Prelude.shape? id.root

def expect (m : Model) (id : ShapeId) : Except Error Shape :=
  match m.get? id with
  | some s => .ok s
  | none => .error (.shapeNotFound id)

def member? (m : Model) (id : ShapeId) : Option Member := do
  let name ← id.member
  let shape ← m.get? id
  shape.member? name

def expectMember (m : Model) (id : ShapeId) : Except Error Member :=
  match m.member? id with
  | some member => .ok member
  | none => .error (.shapeNotFound id)

def service (m : Model) (id : ShapeId) : Except Error (Shape × Service) := do
  let shape ← m.expect id
  match shape.kind with
  | .service s => return (shape, s)
  | kind => throw (.model (.notAService id kind.typeName))

def operation (m : Model) (service id : ShapeId) : Except Error (Shape × Operation) :=
  match m.get? id with
  | some shape =>
    match shape.kind with
    | .operation op => .ok (shape, op)
    | _ => .error (.operationNotFound service id)
  | none => .error (.operationNotFound service id)

def sortIds (ids : List ShapeId) : List ShapeId :=
  ids.mergeSort fun a b => (compare a b).isLE

/-- The list without a repetition of the element before. -/
def dropRepeats [DecidableEq α] : List α → List α
  | a :: b :: rest => if a = b then dropRepeats (b :: rest) else a :: dropRepeats (b :: rest)
  | as => as

/-- The operations bound to a service, in order of their ids, each once. -/
def serviceOperations (m : Model) (id : ShapeId) : Except Error (List (Shape × Operation)) := do
  let (_, s) ← m.service id
  (dropRepeats (sortIds s.operations)).mapM (m.operation id)

end Model

end ClientGen
