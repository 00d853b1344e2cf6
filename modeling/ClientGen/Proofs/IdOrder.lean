import ClientGen.Model.Basic
import ClientGen.Proofs.Dictionary

/-!
# The order of ids is a linear order

Ids compare by namespace, then name, then member. So sorting by id (`Model.sortIds`) keeps the
elements (`sortIds_perm`) and puts different ones in strictly ascending order (`sortIds_ascending`). A list
in that order is determined by its elements (`ascending_unique`).
-/

namespace ClientGen

theorem ShapeId.compare_eq_lex :
    (compare : ShapeId → ShapeId → Ordering) =
      compareLex (compareOn ShapeId.ns) (compareLex (compareOn ShapeId.name) (compareOn ShapeId.member)) := by
  funext a b
  obtain ⟨ns, name, member⟩ := a
  obtain ⟨ns', name', member'⟩ := b
  show (compare ns ns').then ((compare name name').then ((compare member member').then .eq)) = _
  rw [Ordering.then_eq]
  rfl

instance ShapeId.transOrd : Std.TransOrd ShapeId := by
  have h : Std.TransCmp (compareLex (compareOn ShapeId.ns)
    (compareLex (compareOn ShapeId.name) (compareOn ShapeId.member))) := inferInstance
  rwa [← ShapeId.compare_eq_lex] at h

instance ShapeId.lawfulEqOrd : Std.LawfulEqOrd ShapeId where
  eq_of_compare {a b} h := by
    rw [ShapeId.compare_eq_lex, compareLex_eq_eq, compareLex_eq_eq] at h
    obtain ⟨h1, h2, h3⟩ := h
    obtain ⟨ns, name, member⟩ := a
    obtain ⟨ns', name', member'⟩ := b
    simp only [compareOn, Std.LawfulEqOrd.compare_eq_iff_eq] at h1 h2 h3
    rw [h1, h2, h3]

namespace Model

theorem sortIds_perm (ids : List ShapeId) : (sortIds ids).Perm ids := List.mergeSort_perm _ _

theorem mem_sortIds {ids : List ShapeId} {id : ShapeId} : id ∈ sortIds ids ↔ id ∈ ids :=
  (sortIds_perm ids).mem_iff

theorem sortIds_nodup {ids : List ShapeId} (h : ids.Nodup) : (sortIds ids).Nodup :=
  (sortIds_perm ids).nodup_iff.2 h

theorem sortIds_sorted (ids : List ShapeId) : (sortIds ids).Pairwise fun a b => (compare a b).isLE = true := by
  apply List.pairwise_mergeSort
  · intro a b c hab hbc
    exact Std.TransCmp.isLE_trans hab hbc
  · intro a b
    have hs : compare b a = (compare a b).swap := Std.OrientedCmp.eq_swap
    rw [hs]
    cases compare a b <;> rfl

/-- **Sorted ids ascend**, strictly if they are different. -/
theorem sortIds_ascending {ids : List ShapeId} (h : ids.Nodup) :
    (sortIds ids).Pairwise fun a b => compare a b = .lt := by
  apply ((sortIds_sorted ids).and (sortIds_nodup h)).imp
  rintro a b ⟨hab, hne⟩
  cases hc : compare a b with
  | lt => rfl
  | eq => exact absurd (Std.LawfulEqOrd.eq_of_compare hc) hne
  | gt => rw [hc] at hab; exact absurd hab (by decide)

theorem nodup_of_ascending {ids : List ShapeId} (h : ids.Pairwise fun a b => compare a b = .lt) : ids.Nodup :=
  ascending_nodup id h

/-- **Ascending ids with the same elements are the same list.** -/
theorem ascending_unique {ids ids' : List ShapeId} (h : ids.Pairwise fun a b => compare a b = .lt)
    (h' : ids'.Pairwise fun a b => compare a b = .lt) (hmem : ∀ id, id ∈ ids ↔ id ∈ ids') : ids = ids' :=
  ascending_ext id h h' hmem

end Model

end ClientGen
