import ClientGen.Proofs.WalkSet
import Mathlib.Data.List.Induction
import Mathlib.Data.List.Nodup

/-!
# Models and the changes they came about by

A model starts empty. Shapes are added and replaced and metadata is set, in any order; a call that fails leaves
the model as it was. The index and the list of shapes stay in step all along, and the list can be read off
the calls that succeeded.

* `position?_eq_some_iff`: the index has exactly the places of the list.
* `add_ok`, `replace_ok`: what a call that succeeds does to list, index and metadata.
* `shapes_after`: the list holds what was added, in order, each id with its latest definition.
* `after_coherent`: all this for every sequence of calls.
-/

namespace ClientGen.Model

variable {m m' : Model} {s : Shape} {id : ShapeId} {e : Error}

/-! ### The index -/

/-- **The index has exactly the places of the list.** -/
theorem position?_eq_some_iff {i : Nat} :
    m.position? id = some i ↔ ∃ h : i < m.shapes.length, m.shapes[i].id = id := by
  constructor
  · intro h
    obtain ⟨hi, hid⟩ := List.getElem?_eq_some_iff.1 (id_of_position? h)
    rw [List.length_map] at hi
    rw [List.getElem_map] at hid
    exact ⟨hi, hid⟩
  · rintro ⟨hi, rfl⟩
    have hlen : i < (m.shapes.map Shape.id).length := by rwa [List.length_map]
    rw [position?_eq, List.findIdx?_eq_some_iff_getElem]
    refine ⟨hlen, by simp, fun j hji hj => ?_⟩
    -- no earlier place has the id, since each id stands once
    have hj' : j < (m.shapes.map Shape.id).length := by omega
    have heq : (m.shapes.map Shape.id)[j] = (m.shapes.map Shape.id)[i] := by simpa using hj
    have : j = i := (List.Nodup.getElem_inj_iff m.distinct).1 heq
    omega

theorem index_nodup (m : Model) : (m.index.map Prod.fst).Nodup := by
  rw [m.indexed, places, List.zipIdx_map_fst]
  exact m.distinct

theorem position?_eq_none_iff : m.position? id = none ↔ id ∉ m.shapes.map Shape.id := by
  rw [position?_eq, List.findIdx?_eq_none_iff]
  constructor
  · intro h hmem
    simpa using h id hmem
  · intro h x hx
    rw [beq_eq_false_iff_ne]
    rintro rfl
    exact h hx

/-! ### Single calls -/

/-- The second model is the first with the shape at its end. -/
structure Added (m : Model) (s : Shape) (m' : Model) : Prop where
  shapes : m'.shapes = m.shapes ++ [s]
  index : m'.index = m.index ++ [(s.id, m.shapes.length)]
  metadata : m'.metadata = m.metadata

/-- The second model is the first with the shape at the given place. -/
structure ReplacedAt (m : Model) (s : Shape) (i : Nat) (m' : Model) : Prop where
  shapes : m'.shapes = m.shapes.set i s
  index : m'.index = m.index
  metadata : m'.metadata = m.metadata

theorem declares_iff_position? : m.declares id = true ↔ m.position? id ≠ none := by
  unfold declares
  rw [Option.isSome_iff_ne_none]

theorem add_ok (h : m.add s = .ok m') : m.position? s.id = none ∧ Added m s m' := by
  unfold add at h
  split at h
  · cases h
  · next hnew =>
    cases h
    exact ⟨by simpa [declares_iff_position?] using hnew, rfl, rfl, rfl⟩

theorem add_of_none (h : m.position? s.id = none) : ∃ m', m.add s = .ok m' := by
  have hnew : ¬ m.declares s.id = true := by simp [declares_iff_position?, h]
  unfold add
  rw [dif_neg hnew]
  exact ⟨_, rfl⟩

theorem add_error_iff :
    m.add s = .error e ↔ m.position? s.id ≠ none ∧ e = .invalidModel (.duplicateShape s.id) := by
  rw [← declares_iff_position?]
  unfold add
  split
  · next h => simp [h, eq_comm]
  · next h => simp [h]

theorem replace_ok (h : m.replace s = .ok m') : ∃ i, m.position? s.id = some i ∧ ReplacedAt m s i m' := by
  unfold replace at h
  split at h
  · next i hi =>
    cases h
    exact ⟨i, hi, rfl, rfl, rfl⟩
  · cases h

theorem replace_error_iff :
    m.replace s = .error e ↔ m.position? s.id = none ∧ e = .shapeNotFound s.id := by
  unfold replace
  split
  · next i hi => simp [hi]
  · next hi => simp [hi, eq_comm]

theorem Added.ids (h : Added m s m') : m'.shapes.map Shape.id = m.shapes.map Shape.id ++ [s.id] := by
  rw [h.shapes, List.map_append, List.map_singleton]

theorem ReplacedAt.position? {i : Nat} (h : ReplacedAt m s i m') (id : ShapeId) :
    m'.position? id = m.position? id := by
  unfold Model.position?
  rw [h.index]

/-! ### Sequences of calls -/

/-- A call that changes a model. -/
inductive Change where
  | add (s : Shape)
  | replace (s : Shape)
  | setMetadata (key : String) (value : Json)

namespace Change

/-- The model that the call gives, or the reason why it fails. -/
def apply (m : Model) : Change → Except Error Model
  | .add s => m.add s
  | .replace s => m.replace s
  | .setMetadata key value => .ok (m.setMetadata key value)

/-- The shape that the call adds. -/
def added? : Change → Option Shape
  | .add s => some s
  | _ => none

/-- The shape that the call adds or puts in another's place. -/
def defined? : Change → Option Shape
  | .add s => some s
  | .replace s => some s
  | .setMetadata _ _ => none

end Change

/-- The model after a call, and the calls that succeeded so far. -/
def record (state : Model × List Change) (c : Change) : Model × List Change :=
  match c.apply state.1 with
  | .ok m => (m, state.2 ++ [c])
  | .error _ => state

/-- The model after calls on the empty one. -/
def after (changes : List Change) : Model := (changes.foldl record (.empty, [])).1

/-- Those of the calls that succeed, in order. -/
def accepted (changes : List Change) : List Change := (changes.foldl record (.empty, [])).2

/-- The last one of the shapes with the id. -/
def latest? (shapes : List Shape) (id : ShapeId) : Option Shape := shapes.reverse.find? fun s => s.id == id

theorem after_of_ok {changes : List Change} {c : Change} (h : c.apply (after changes) = .ok m') :
    after (changes ++ [c]) = m' ∧ accepted (changes ++ [c]) = accepted changes ++ [c] := by
  unfold after accepted at *
  rw [List.foldl_append, List.foldl_cons, List.foldl_nil, record, h]
  exact ⟨rfl, rfl⟩

theorem after_of_error {changes : List Change} {c : Change} (h : c.apply (after changes) = .error e) :
    after (changes ++ [c]) = after changes ∧ accepted (changes ++ [c]) = accepted changes := by
  unfold after accepted at *
  rw [List.foldl_append, List.foldl_cons, List.foldl_nil, record, h]
  exact ⟨rfl, rfl⟩

theorem latest?_append (shapes : List Shape) (s : Shape) (id : ShapeId) :
    latest? (shapes ++ [s]) id = if s.id = id then some s else latest? shapes id := by
  unfold latest?
  rw [List.reverse_append, List.reverse_singleton, List.singleton_append, List.find?_cons]
  by_cases h : s.id = id
  · rw [beq_iff_eq.2 h, if_pos h]
  · rw [beq_eq_false_iff_ne.2 h, if_neg h]

/-- The list of shapes as the calls that succeeded tell it. -/
structure Recorded (m : Model) (accepted : List Change) : Prop where
  ids : m.shapes.map Shape.id = (accepted.filterMap Change.added?).map Shape.id
  latest : m.shapes.map some = (accepted.filterMap Change.added?).map fun s =>
    latest? (accepted.filterMap Change.defined?) s.id

theorem Recorded.add {accepted : List Change} (h : Recorded m accepted) (hs : m.add s = .ok m') :
    Recorded m' (accepted ++ [.add s]) := by
  obtain ⟨hnew, hadded⟩ := add_ok hs
  rw [position?_eq_none_iff, h.ids] at hnew
  constructor
  · rw [hadded.ids, h.ids]
    simp [Change.added?]
  · rw [hadded.shapes, List.map_append, h.latest]
    simp only [List.filterMap_append, List.filterMap_cons, List.filterMap_nil, Change.added?, Change.defined?,
      List.map_append, List.map_cons, List.map_nil, latest?_append, if_pos]
    congr 1
    apply List.map_congr_left
    intro a ha
    -- the new id is none of those that were added before
    rw [if_neg]
    intro heq
    exact hnew (List.mem_map.2 ⟨a, ha, heq.symm⟩)

theorem Recorded.replace {accepted : List Change} (h : Recorded m accepted) (hs : m.replace s = .ok m') :
    Recorded m' (accepted ++ [.replace s]) := by
  obtain ⟨i, hi, hreplaced⟩ := replace_ok hs
  obtain ⟨hlt, hid⟩ := position?_eq_some_iff.1 hi
  have hids : m'.shapes.map Shape.id = m.shapes.map Shape.id := by rw [hreplaced.shapes, map_id_set hi]
  have hadds : (accepted ++ [Change.replace s]).filterMap Change.added? = accepted.filterMap Change.added? := by
    simp [Change.added?]
  refine ⟨by rw [hids, h.ids, hadds], ?_⟩
  have hdefined : (accepted ++ [Change.replace s]).filterMap Change.defined? =
      accepted.filterMap Change.defined? ++ [s] := by simp [Change.defined?]
  rw [hadds, hdefined, hreplaced.shapes, List.map_set, h.latest]
  simp only [latest?_append]
  -- place by place: the id of `s` stands at `i` and nowhere else
  apply List.ext_getElem?
  intro j
  rw [List.getElem?_set, List.getElem?_map, List.getElem?_map, List.length_map]
  have hlen : m.shapes.length = (accepted.filterMap Change.added?).length := by
    simpa using congrArg List.length h.ids
  cases ha : (accepted.filterMap Change.added?)[j]? with
  | none =>
    have : i ≠ j := by
      rintro rfl
      have := List.getElem?_eq_none_iff.1 ha
      omega
    simp [this]
  | some a =>
    have haj : (m.shapes.map Shape.id)[j]? = some a.id := by rw [h.ids, List.getElem?_map, ha]; rfl
    by_cases hij : i = j
    · subst hij
      have hsa : s.id = a.id := Option.some.inj ((id_of_position? hi).symm.trans haj)
      simp [hsa, ← hlen, hlt]
    · have hsa : s.id ≠ a.id := by
        intro heq
        rw [List.getElem?_map, Option.map_eq_some_iff] at haj
        obtain ⟨t, ht, hta⟩ := haj
        obtain ⟨hj, rfl⟩ := List.getElem?_eq_some_iff.1 ht
        have := position?_eq_some_iff.2 ⟨hj, hta.trans heq.symm⟩
        rw [hi] at this
        exact hij (Option.some.inj this)
      simp [hij, hsa]

theorem Recorded.apply {accepted : List Change} (h : Recorded m accepted) {c : Change} (hc : c.apply m = .ok m') :
    Recorded m' (accepted ++ [c]) := by
  cases c with
  | add s => exact h.add hc
  | replace s => exact h.replace hc
  | setMetadata key value =>
    cases hc
    have hadds : (accepted ++ [Change.setMetadata key value]).filterMap Change.added? =
        accepted.filterMap Change.added? := by simp [Change.added?]
    have hdefined : (accepted ++ [Change.setMetadata key value]).filterMap Change.defined? =
        accepted.filterMap Change.defined? := by simp [Change.defined?]
    exact ⟨by rw [hadds]; exact h.ids, by rw [hadds, hdefined]; exact h.latest⟩

/-- **The list holds what was added, in order, each id with its latest definition.** -/
theorem shapes_after (changes : List Change) : Recorded (after changes) (accepted changes) := by
  induction changes using List.reverseRecOn with
  | nil => exact ⟨rfl, rfl⟩
  | append_singleton changes c ih =>
    cases hc : c.apply (after changes) with
    | ok m' =>
      rw [(after_of_ok hc).1, (after_of_ok hc).2]
      exact ih.apply hc
    | error e =>
      rw [(after_of_error hc).1, (after_of_error hc).2]
      exact ih

/-- **Index and list stay in step.** After any calls on the empty model,
1. the index gives an id the place `i` exactly if the shape at `i` has that id, and neither the list nor the index has
   an id twice;
2. an addition fails exactly if the id is there, and then as a duplicate; a replacement fails exactly if it is not;
3. a call that fails leaves the model as it is;
4. a replacement changes the shape at its own place only, and no place;
5. the shapes are those of the additions that succeeded, in order, each with the definition that the last
   successful call on its id gave. -/
theorem after_coherent (changes : List Change) :
    let m := after changes
    ((∀ id i, m.position? id = some i ↔ ∃ h : i < m.shapes.length, m.shapes[i].id = id) ∧
      (m.shapes.map Shape.id).Nodup ∧ (m.index.map Prod.fst).Nodup) ∧
    ((∀ s e, m.add s = .error e ↔ m.position? s.id ≠ none ∧ e = .invalidModel (.duplicateShape s.id)) ∧
      ∀ s e, m.replace s = .error e ↔ m.position? s.id = none ∧ e = .shapeNotFound s.id) ∧
    (∀ c e, c.apply m = .error e → after (changes ++ [c]) = m) ∧
    (∀ s m', m.replace s = .ok m' → ∃ i, m.position? s.id = some i ∧ m'.shapes[i]? = some s ∧
      (∀ j, j ≠ i → m'.shapes[j]? = m.shapes[j]?) ∧ (∀ id, m'.position? id = m.position? id) ∧
      m'.metadata = m.metadata) ∧
    m.shapes.map some = ((accepted changes).filterMap Change.added?).map fun s =>
      latest? ((accepted changes).filterMap Change.defined?) s.id := by
  intro m
  refine ⟨⟨fun id i => position?_eq_some_iff, m.distinct, m.index_nodup⟩,
    ⟨fun s e => add_error_iff, fun s e => replace_error_iff⟩, fun c e hc => (after_of_error hc).1, ?_,
    (shapes_after changes).latest⟩
  intro s m' hs
  obtain ⟨i, hi, hreplaced⟩ := replace_ok hs
  obtain ⟨hlt, -⟩ := position?_eq_some_iff.1 hi
  refine ⟨i, hi, ?_, fun j hj => ?_, hreplaced.position?, hreplaced.metadata⟩
  · rw [hreplaced.shapes, List.getElem?_set_self hlt]
  · rw [hreplaced.shapes, List.getElem?_set_ne (Ne.symm hj)]

end ClientGen.Model
