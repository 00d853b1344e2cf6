import ClientGen.EmissionOrder
import ClientGen.Proofs.IdOrder
import ClientGen.Proofs.Outcome
import Mathlib.Data.List.Nodup

/-!
# The set that a walk collects

* `get?_id`: a shape that an id resolves to is the one that its own id resolves to.
* `walk_ok`: a walk gives the ids of declared shapes, each once.
* `referenceGraph_ok`: the graph of a walk has the shapes of the walk as nodes, and an edge for every
  reference between two of them.
-/

namespace ClientGen.Model

variable {m : Model} {id : ShapeId} {s : Shape}

theorem declared?_id (h : m.declared? id = some s) : s.id = id := by
  rw [declared?_eq] at h
  simpa using List.find?_some h

theorem mem_of_declared? (h : m.declared? id = some s) : s ∈ m.shapes := by
  rw [declared?_eq] at h
  exact List.mem_of_find?_eq_some h

theorem declares_iff : m.declares id = true ↔ ∃ s, m.declared? id = some s := by
  rw [declares_eq, declared?_eq, ← Option.isSome_iff_exists, List.find?_isSome, List.any_eq_true]

theorem declared?_of_mem (h : s ∈ m.shapes) : m.declared? s.id = some s := by
  cases hd : m.declared? s.id with
  | none =>
    rw [declared?_eq] at hd
    simpa using List.find?_eq_none.1 hd s h
  | some t =>
    have hid : t.id = s.id := declared?_id hd
    have hinj := List.inj_on_of_nodup_map m.distinct
    rw [hinj (mem_of_declared? hd) h hid]

theorem prelude_id (h : Prelude.shape? id = some s) : s.id = id := by
  unfold Prelude.shape? at h
  split at h
  · rename_i hu
    cases h
    exact (eq_of_beq hu).symm
  · split at h
    · obtain ⟨e, -, rfl⟩ := Option.map_eq_some_iff.1 h
      rfl
    · simp at h

theorem get?_root (m : Model) (id : ShapeId) : m.get? id.root = m.get? id := rfl

/-- **A resolved shape is the shape of its own id.** -/
theorem get?_id (h : m.get? id = some s) : s.id = id.root ∧ m.get? s.id = some s := by
  have hid : s.id = id.root := by
    unfold get? at h
    split at h
    · rename_i hd
      cases h
      exact declared?_id hd
    · exact prelude_id h
  refine ⟨hid, ?_⟩
  rw [hid, get?_root]
  exact h

theorem expect_eq_ok : m.expect id = .ok s ↔ m.get? id = some s := by
  unfold expect
  cases m.get? id <;> simp

theorem resolveReferences_ok {next : List Shape} (h : m.resolveReferences s = .ok next) :
    ∀ t ∈ next, m.get? t.id = some t := by
  intro t ht
  obtain ⟨target, -, hf⟩ := exists_of_mem_mapM h ht
  split at hf
  · rename_i hg
    cases hf
    exact (get?_id hg).2
  · cases hf

/-- A shape that the walk visits next was on the stack, and is declared and new. -/
theorem dropWhile_isPassed {stack rest : List Shape} {seen : List ShapeId}
    (h : stack.dropWhile (m.isPassed seen) = s :: rest) :
    s ∈ stack ∧ (∀ t ∈ rest, t ∈ stack) ∧ m.declares s.id = true ∧ s.id ∉ seen := by
  have hsub : (s :: rest).Sublist stack := h ▸ List.dropWhile_sublist _
  have hhead : m.isPassed seen s = false := by
    have := List.head_dropWhile_not (m.isPassed seen) (l := stack) (by rw [h]; simp)
    simpa [h] using this
  simp only [isPassed, Bool.or_eq_false_iff, Bool.not_eq_false'] at hhead
  exact ⟨hsub.subset (by simp), fun t ht => hsub.subset (List.mem_cons_of_mem _ ht), hhead.1,
    by simpa using hhead.2⟩

/-- What a walk has collected so far: declared shapes, each once. -/
structure Collected (m : Model) (seen : List ShapeId) : Prop where
  nodup : seen.Nodup
  declared : ∀ id ∈ seen, m.declares id = true ∧ ∃ s, m.get? id = some s ∧ s.id = id

theorem walkFrom_ok (m : Model) :
    ∀ (fuel : Nat) (stack : List Shape) (seen out : List ShapeId),
      (∀ s ∈ stack, m.get? s.id = some s) → m.Collected seen →
      m.walkFrom fuel stack seen = .ok out → m.Collected out := by
  intro fuel
  induction fuel with
  | zero =>
    intro stack seen out _ hc h
    cases h
    exact hc
  | succ fuel ih =>
    intro stack seen out hstack hc h
    rw [walkFrom] at h
    split at h
    · cases h
      exact hc
    · rename_i s rest hdrop
      obtain ⟨hs, hrest, hdecl, hnew⟩ := dropWhile_isPassed hdrop
      obtain ⟨next, hnext, h⟩ := bind_ok_iff.1 h
      refine ih _ _ _ ?_ ⟨List.nodup_cons.2 ⟨hnew, hc.nodup⟩, ?_⟩ h
      · intro t ht
        rcases List.mem_append.1 ht with ht | ht
        · exact resolveReferences_ok hnext t (List.mem_reverse.1 ht)
        · exact hstack t (hrest t ht)
      · intro id hid
        rcases List.mem_cons.1 hid with rfl | hid
        · exact ⟨hdecl, s, hstack s hs, rfl⟩
        · exact hc.declared id hid

/-- **A walk collects declared shapes**, each once. -/
theorem walk_ok {root : ShapeId} {nodes : List ShapeId} (h : m.walk root = .ok nodes) :
    m.Collected nodes := by
  obtain ⟨s, hs, h⟩ := bind_ok_iff.1 h
  obtain ⟨seen, hseen, h⟩ := bind_ok_iff.1 h
  cases h
  have hroot : ∀ t ∈ [s], m.get? t.id = some t := by
    intro t ht
    rw [List.mem_singleton] at ht
    subst ht
    exact (get?_id (expect_eq_ok.1 hs)).2
  have hc := walkFrom_ok m _ _ _ _ hroot ⟨List.nodup_nil, by simp⟩ hseen
  exact ⟨sortIds_nodup hc.nodup, fun id hid => hc.declared id (mem_sortIds.1 hid)⟩

/-- A reference from one shape of a set to another of it. -/
def RefersWithin (m : Model) (nodes : List ShapeId) (a b : ShapeId) : Prop :=
  a ∈ nodes ∧ b ∈ nodes ∧ ∃ s, m.get? a = some s ∧ b ∈ s.references

/-- The references of a shape that stay within a set, in order and each once. -/
def targetsWithin (m : Model) (nodes : List ShapeId) (id : ShapeId) : List ShapeId :=
  match m.get? id with
  | some s => (s.references.filter nodes.contains).eraseDups
  | none => []

theorem mem_targetsWithin {nodes : List ShapeId} {a b : ShapeId} :
    b ∈ m.targetsWithin nodes a ↔ b ∈ nodes ∧ ∃ s, m.get? a = some s ∧ b ∈ s.references := by
  unfold targetsWithin
  cases m.get? a with
  | none => simp
  | some s => simp [List.mem_eraseDups, List.mem_filter, and_comm]

theorem successors_map (nodes : List ShapeId) (f : ShapeId → List ShapeId) (a : ShapeId) :
    (⟨nodes.map fun id => (id, f id)⟩ : ReferenceGraph).successors a = if a ∈ nodes then f a else [] := by
  unfold ReferenceGraph.successors
  rw [List.find?_map]
  split
  · rename_i ha
    have hf : nodes.find? (fun x => x == a) = some a := by
      cases hb : nodes.find? (fun x => x == a) with
      | none => exact absurd (beq_self_eq_true a) (List.find?_eq_none.1 hb a ha)
      | some b => rw [show b = a by simpa using List.find?_some hb]
    simp only [Function.comp_def, hf, Option.map_some, Option.getD_some]
  · rename_i ha
    have hf : nodes.find? (fun x => x == a) = none := by
      rw [List.find?_eq_none]
      intro x hx
      simp only [beq_iff_eq]
      rintro rfl
      exact ha hx
    simp only [Function.comp_def, hf, Option.map_none, Option.getD_none]

theorem referenceGraph_eq {root : ShapeId} {nodes : List ShapeId} (h : m.walk root = .ok nodes) :
    m.referenceGraph root = .ok ⟨nodes.map fun id => (id, m.targetsWithin nodes id)⟩ := by
  have hedges : nodes.mapM (fun id => do
      let s ← m.expect id
      return (id, (s.references.filter nodes.contains).eraseDups)) =
      .ok (nodes.map fun id => (id, m.targetsWithin nodes id)) := by
    apply mapM_eq_ok_map
    intro id hid
    obtain ⟨-, s, hs, -⟩ := (walk_ok h).declared id hid
    rw [expect_eq_ok.2 hs]
    unfold targetsWithin
    rw [hs]
    rfl
  exact bind_ok_iff.2 ⟨nodes, h, bind_ok_iff.2 ⟨_, hedges, rfl⟩⟩

/-- **The graph of a walk**: its nodes are what the walk collects, its edges the references among
them. -/
theorem referenceGraph_ok {root : ShapeId} {nodes : List ShapeId} (h : m.walk root = .ok nodes) :
    ∃ g, m.referenceGraph root = .ok g ∧ g.nodes = nodes ∧
      ∀ a b, b ∈ g.successors a ↔ m.RefersWithin nodes a b := by
  refine ⟨_, referenceGraph_eq h, ?_, ?_⟩
  · simp [ReferenceGraph.nodes, Function.comp_def]
  · intro a b
    rw [successors_map]
    split
    · rename_i ha
      simp [mem_targetsWithin, RefersWithin, ha]
    · rename_i ha
      simp [RefersWithin, ha]

theorem referenceGraph_error {root : ShapeId} {e : Error} (h : m.walk root = .error e) :
    m.referenceGraph root = .error e := by
  unfold referenceGraph
  rw [h]
  rfl

end ClientGen.Model
