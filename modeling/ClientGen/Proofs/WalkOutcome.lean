import ClientGen.Proofs.Reachability

/-!
# How a walk ends

A walk goes on until no shape is left to visit or a reference leads nowhere. The bound on the number of
visits is more than the number of declared shapes, and no shape is visited twice, so it never cuts a walk
short.

* `walkFrom_bound`: beyond the number of declared shapes the bound on visits does not matter.
* `walk_outcome`: a walk fails if the root is not found, fails if a reference strands, and otherwise gives the
  declared shapes that the root reaches, in order.
-/

namespace ClientGen.Model

variable {m : Model} {root : ShapeId} {nodes : List ShapeId}

/-- **The bound on the number of visits does not matter** once it exceeds the number of declared shapes. -/
theorem walkFrom_bound : ∀ (bound bound' : Nat) (stack : List Shape) (seen : List ShapeId),
    m.Underway root stack seen → m.shapes.length < seen.length + bound → m.shapes.length < seen.length + bound' →
    m.walkFrom bound stack seen = m.walkFrom bound' stack seen := by
  intro bound
  induction bound with
  | zero =>
    intro bound' stack seen h hbound _
    have := h.toCollected.length_le
    omega
  | succ bound ih =>
    intro bound' stack seen h hbound hbound'
    cases bound' with
    | zero =>
      have := h.toCollected.length_le
      omega
    | succ bound' =>
      rw [walkFrom, walkFrom]
      split
      · rfl
      · rename_i s rest hdrop
        cases hnext : m.resolveReferences s with
        | error e => rfl
        | ok next =>
          have hlength : (s.id :: seen).length = seen.length + 1 := List.length_cons
          exact ih bound' _ _ (h.visit hdrop hnext) (by omega) (by omega)

theorem not_strands {out : List ShapeId} (h : m.Underway root [] out) (hmem : ∀ id, id ∈ nodes ↔ id ∈ out)
    (hnodes : m.walk root = .ok nodes) {shape : Shape} {target : ShapeId} : ¬ m.Strands root shape target := by
  intro hstrands
  have hid : shape.id ∈ out := (hmem shape.id).1 ((mem_walk_iff hnodes).2 ⟨hstrands.declared, hstrands.reached⟩)
  obtain ⟨next, hnext⟩ := h.resolved shape.id hid shape hstrands.resolved target hstrands.listed
  rw [hstrands.missing] at hnext
  cases hnext

theorem walk_of_none (hroot : m.get? root = none) : m.walk root = .error (.shapeNotFound root) := by
  unfold walk expect
  rw [hroot]
  rfl

/-- A walk from a root that is found: what it collects, or the reference that strands it. -/
theorem walk_of_some {s : Shape} (hroot : m.get? root = some s) :
    (∃ nodes, m.walk root = .ok nodes ∧ (nodes.Pairwise fun a b => compare a b = .lt) ∧
      ∀ shape target, ¬ m.Strands root shape target) ∨
      ∃ shape target, m.Strands root shape target ∧
        m.walk root = .error (.invalidModel (.danglingReference shape.id target)) := by
  have hwalk : m.walk root = (m.walkFrom (m.shapes.length + 1) [s] [] >>= fun seen => .ok (sortIds seen)) := by
    unfold walk
    rw [expect_eq_ok.2 hroot]
    rfl
  rcases walkFrom_ends (m.shapes.length + 1) [s] [] (.initial hroot) (by simp) with
    ⟨out, hout, hend⟩ | ⟨shape, target, hstrands, herror⟩
  · left
    have hok : m.walk root = .ok (sortIds out) := by
      rw [hwalk, hout]
      rfl
    exact ⟨sortIds out, hok, sortIds_ascending hend.nodup, fun _ _ => not_strands hend (fun _ => mem_sortIds) hok⟩
  · right
    refine ⟨shape, target, hstrands, ?_⟩
    rw [hwalk, herror]
    rfl

/-- A walk that succeeds gives ids in order, and every reference on its way leads somewhere. -/
theorem walk_complete (h : m.walk root = .ok nodes) :
    (nodes.Pairwise fun a b => compare a b = .lt) ∧ ∀ shape target, ¬ m.Strands root shape target := by
  cases hroot : m.get? root with
  | none =>
    rw [walk_of_none hroot] at h
    cases h
  | some s =>
    rcases walk_of_some hroot with ⟨nodes', hwalk, hcomplete⟩ | ⟨_, _, -, hwalk⟩
    · cases h.symm.trans hwalk
      exact hcomplete
    · cases h.symm.trans hwalk

/-- **How a walk ends.**
1. It says that the root was not found exactly if the root does not resolve.
2. It says that the model is invalid exactly if the root resolves and some reference strands; and it then
   names a shape and a target of such a reference.
3. It gives a list of ids exactly if the root resolves, no reference strands, and the list has the declared
   shapes that references lead to, each once and in order.
4. It ends by itself: the bound on the number of visits could be any number beyond that of the shapes. -/
theorem walk_outcome (m : Model) (root : ShapeId) :
    (m.walk root = .error (.shapeNotFound root) ↔ m.get? root = none) ∧
    ((∃ cause, m.walk root = .error (.invalidModel cause)) ↔
      (∃ s, m.get? root = some s) ∧ ∃ shape target, m.Strands root shape target) ∧
    (∀ cause, m.walk root = .error (.invalidModel cause) →
      ∃ shape target, m.Strands root shape target ∧ cause = .danglingReference shape.id target) ∧
    (∀ nodes, m.walk root = .ok nodes ↔
      (∃ s, m.get? root = some s) ∧ (¬ ∃ shape target, m.Strands root shape target) ∧
        (nodes.Pairwise fun a b => compare a b = .lt) ∧
        ∀ id, id ∈ nodes ↔ m.declares id = true ∧ m.Reaches root id) ∧
    (∀ s, m.get? root = some s → ∀ bound, m.shapes.length < bound →
      m.walkFrom bound [s] [] = m.walkFrom (m.shapes.length + 1) [s] []) := by
  have hbound : ∀ s, m.get? root = some s → ∀ bound, m.shapes.length < bound →
      m.walkFrom bound [s] [] = m.walkFrom (m.shapes.length + 1) [s] [] := by
    intro s hs bound hbound
    exact walkFrom_bound _ _ _ _ (.initial hs) (by simpa using hbound) (by simp)
  cases hroot : m.get? root with
  | none =>
    have hwalk := walk_of_none hroot
    exact ⟨by simp [hwalk], by simp [hwalk], by simp [hwalk], by simp [hwalk], by simp⟩
  | some s =>
    rw [← hroot]
    rcases walk_of_some hroot with ⟨nodes, hwalk, hascending, hnone⟩ | ⟨shape, target, hstrands, hwalk⟩
    · have hstranded : ¬ ∃ shape target, m.Strands root shape target := by
        rintro ⟨shape, target, hstrands⟩
        exact hnone shape target hstrands
      refine ⟨by simp [hwalk, hroot], by simp [hwalk, hstranded], by simp [hwalk], fun nodes' => ?_, hbound⟩
      rw [hwalk]
      constructor
      · rintro ⟨⟩
        exact ⟨⟨s, hroot⟩, hstranded, hascending, fun _ => mem_walk_iff hwalk⟩
      · rintro ⟨-, -, hascending', hmem⟩
        rw [ascending_unique hascending hascending' fun id => (mem_walk_iff hwalk).trans (hmem id).symm]
    · have hstranded : ∃ shape target, m.Strands root shape target := ⟨shape, target, hstrands⟩
      refine ⟨by simp [hwalk, hroot], ?_, ?_, by simp [hwalk, hstranded], hbound⟩
      · exact iff_of_true ⟨_, hwalk⟩ ⟨⟨s, hroot⟩, hstranded⟩
      · intro cause hcause
        rw [hwalk] at hcause
        cases hcause
        exact ⟨shape, target, hstrands, rfl⟩

end ClientGen.Model
