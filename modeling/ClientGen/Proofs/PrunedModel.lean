import ClientGen.Proofs.EmissionOrder
import ClientGen.Proofs.WalkOutcome

/-!
# The pruned model stands for the whole one

What a root reaches is closed under references. So the model that is left of pruning needs nothing that was
taken away, and whatever is found by following references from the root is found in it too.

* `reference_prune`: a reference of a kept shape resolves, and to the same shape as before.
* `walk_prune`: a walk through the pruned model collects the same shapes.
* `prune_self_contained`: pruning keeps the shapes of the walk in their order, a second pruning changes
  nothing, and the emission order is that of the whole model.
-/

namespace ClientGen.Model

variable {m p : Model} {root id : ShapeId} {s : Shape} {nodes : List ShapeId}

/-- The shapes that pruning keeps: those of the list whose ids are collected, and so reached. -/
theorem mem_shapes_prune (h : m.prune root = .ok p) :
    s ∈ p.shapes ↔ s ∈ m.shapes ∧ m.Reaches root s.id := by
  obtain ⟨nodes, hnodes, rfl⟩ := prune_ok h
  have hwalk : s.id ∈ nodes ↔ m.declares s.id = true ∧ m.Reaches root s.id := mem_walk_iff hnodes
  rw [keep, List.mem_filter, List.contains_iff_mem, hwalk]
  constructor
  · rintro ⟨hs, -, hreached⟩
    exact ⟨hs, hreached⟩
  · rintro ⟨hs, hreached⟩
    exact ⟨hs, declares_iff.2 ⟨s, declared?_of_mem hs⟩, hreached⟩

theorem declares_prune (h : m.prune root = .ok p) :
    p.declares id = true ↔ m.declares id = true ∧ m.Reaches root id := by
  constructor
  · intro hid
    obtain ⟨s, hs⟩ := declares_iff.1 hid
    obtain ⟨hmem, hreached⟩ := (mem_shapes_prune h).1 (mem_of_declared? hs)
    rw [declared?_id hs] at hreached
    refine ⟨declares_iff.2 ⟨s, ?_⟩, hreached⟩
    rw [← declared?_id hs]
    exact declared?_of_mem hmem
  · rintro ⟨hid, hreached⟩
    obtain ⟨s, hs⟩ := declares_iff.1 hid
    exact declares_iff.2 ⟨s, (declared?_prune h hs).1 hreached⟩

/-- **A kept shape refers to what it referred to before.** -/
theorem reference_prune (h : m.prune root = .ok p) (hs : s ∈ p.shapes) {target : ShapeId}
    (htarget : target ∈ s.references) : ∃ next, m.get? target = some next ∧ p.get? target = some next := by
  obtain ⟨hmem, hreached⟩ := (mem_shapes_prune h).1 hs
  obtain ⟨nodes, hnodes, -⟩ := prune_ok h
  have hdeclared : m.declared? s.id = some s := declared?_of_mem hmem
  have hget : m.get? s.id = some s := by
    unfold get?
    rw [hreached.root_eq, hdeclared]
  cases hnext : m.get? target with
  | none =>
    have hstrands : m.Strands root s target :=
      ⟨declares_iff.2 ⟨s, hdeclared⟩, hget, hreached, htarget, hnext⟩
    exact absurd hstrands ((walk_complete hnodes).2 s target)
  | some next =>
    refine ⟨next, rfl, ?_⟩
    -- the target is one reference further from the root
    have hstep : m.Refers s.id target.root :=
      ⟨s, hget, target, htarget, next, hnext, (get?_id hnext).1⟩
    rw [get?_prune h fun _ => hreached.tail hstep, hnext]

/-- **A walk through the pruned model** collects what the walk through the whole model did. -/
theorem walk_prune (h : m.prune root = .ok p) : p.walk root = m.walk root := by
  obtain ⟨nodes, hnodes, -⟩ := prune_ok h
  obtain ⟨r, hr, -⟩ := bind_ok_iff.1 hnodes
  have hroot : p.get? root = some r := by
    rw [get?_prune h fun _ => .refl]
    exact expect_eq_ok.1 hr
  rw [hnodes]
  rcases walk_of_some hroot with ⟨nodes', hwalk, hascending, -⟩ | ⟨shape, target, hstrands, -⟩
  · rw [hwalk]
    congr 1
    apply ascending_unique hascending (walk_complete hnodes).1
    intro id
    rw [mem_walk_iff hwalk, mem_walk_iff hnodes, declares_prune h]
    exact ⟨fun hid => hid.1, fun hid => ⟨hid, prune_reaches h hid.2⟩⟩
  · -- a reference that strands would be one of a kept shape
    obtain ⟨s, hs⟩ := declares_iff.1 hstrands.declared
    have hget := hstrands.resolved
    unfold get? at hget
    rw [hstrands.reached.root_eq, hs] at hget
    cases hget
    obtain ⟨next, -, hnext⟩ := reference_prune h (mem_of_declared? hs) hstrands.listed
    rw [hstrands.missing] at hnext
    cases hnext

theorem referenceGraph_prune (h : m.prune root = .ok p) : p.referenceGraph root = m.referenceGraph root := by
  obtain ⟨nodes, hnodes, -⟩ := prune_ok h
  have hwalk : p.walk root = .ok nodes := (walk_prune h).trans hnodes
  rw [referenceGraph_eq hwalk, referenceGraph_eq hnodes]
  congr 2
  apply List.map_congr_left
  intro id hid
  have hreached : m.Reaches root id := ((mem_walk_iff hnodes).1 hid).2
  unfold targetsWithin
  rw [get?_prune h]
  intro _
  rw [hreached.root_eq]
  exact hreached

theorem prune_of_walk (h : m.walk root = .ok nodes) :
    m.prune root = .ok (m.keep fun s => nodes.contains s.id) := by
  unfold prune
  rw [h]
  rfl

theorem prune_prune (h : m.prune root = .ok p) : p.prune root = .ok p := by
  obtain ⟨nodes, hnodes, rfl⟩ := prune_ok h
  rw [prune_of_walk ((walk_prune h).trans hnodes)]
  simp [keep, List.filter_filter]

/-- **The pruned model stands for the whole one.** Whenever pruning to a root succeeds,
1. its shapes are those that the walk from the root collects, as they were and in the same order, and the
   metadata is kept;
2. every reference of such a shape resolves, to the shape that it resolved to before, be it declared or one of
   the prelude;
3. a walk from the root collects the same ids, and a second pruning gives the same model;
4. the emission order is the same. -/
theorem prune_self_contained (m p : Model) (root : ShapeId) (h : m.prune root = .ok p) :
    (∃ nodes, m.walk root = .ok nodes ∧ p.shapes = m.shapes.filter fun s => s.id ∈ nodes) ∧
    p.metadata = m.metadata ∧
    (∀ s ∈ p.shapes, ∀ target ∈ s.references,
      ∃ next, m.get? target = some next ∧ p.get? target = some next) ∧
    p.walk root = m.walk root ∧
    p.prune root = .ok p ∧
    EmissionOrder.of p root = EmissionOrder.of m root := by
  refine ⟨?_, ?_, fun s hs target => reference_prune h hs, walk_prune h, prune_prune h, ?_⟩
  · obtain ⟨nodes, hnodes, rfl⟩ := prune_ok h
    refine ⟨nodes, hnodes, ?_⟩
    simp [keep]
  · obtain ⟨nodes, -, rfl⟩ := prune_ok h
    rfl
  · unfold EmissionOrder.of
    rw [referenceGraph_prune h]

/-- A cycle of two shapes, a shape that nothing leads to, and one in the place of a prelude shape. -/
def cyclicModel : Model where
  shapes := [
    { id := { ns := "ex", name := "Folder" },
      kind := .struct [
        { id := { ns := "ex", name := "Folder", member := some "entry" }, target := { ns := "ex", name := "Entry" } },
        { id := { ns := "ex", name := "Folder", member := some "size" }
          target := { ns := "smithy.api", name := "Integer" } }] },
    { id := { ns := "ex", name := "Lost" }, kind := .struct [] },
    { id := { ns := "smithy.api", name := "String" }, kind := .struct [] },
    { id := { ns := "ex", name := "Entry" },
      kind := .struct [
        { id := { ns := "ex", name := "Entry", member := some "parent" }, target := { ns := "ex", name := "Folder" } },
        { id := { ns := "ex", name := "Entry", member := some "title" }
          target := { ns := "smithy.api", name := "String" } }] }]
  distinct := by decide

def folderEntry : ShapeId where
  ns := "ex"
  name := "Folder"
  member := some "entry"

/-- Pruning to a member's id keeps the cycle and the shape that stands for one of the prelude, and takes
the other shape away. -/
theorem prune_self_contained_cyclic : ∃ p, cyclicModel.prune folderEntry = .ok p ∧
    p.shapes.map (·.id.name) = ["Folder", "String", "Entry"] ∧
    (∀ s ∈ p.shapes, ∀ target ∈ s.references,
      ∃ next, cyclicModel.get? target = some next ∧ p.get? target = some next) ∧
    p.prune folderEntry = .ok p ∧
    EmissionOrder.of p folderEntry = EmissionOrder.of cyclicModel folderEntry := by
  have hwalk : cyclicModel.walk folderEntry = .ok (sortIds [{ ns := "smithy.api", name := "String" },
      { ns := "ex", name := "Entry" }, { ns := "ex", name := "Folder" }]) := by rfl
  have hprune := prune_of_walk hwalk
  obtain ⟨⟨nodes, hnodes, hshapes⟩, -, hreferences, -, htwice, horder⟩ :=
    prune_self_contained cyclicModel _ folderEntry hprune
  rw [hwalk] at hnodes
  cases hnodes
  refine ⟨_, hprune, ?_, hreferences, htwice, horder⟩
  rw [hshapes]
  simp only [mem_sortIds]
  decide

end ClientGen.Model
