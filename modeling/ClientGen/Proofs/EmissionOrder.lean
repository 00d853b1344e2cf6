import ClientGen.Proofs.DepthFirst
import ClientGen.Proofs.WalkSet
import Mathlib.Data.List.Nodup

/-!
# The emission order is right

Let `nodes` be what a root reaches, with the references among them as edges. `Valid m nodes o` says
what the emission order is: every node once, the shapes on a cycle of references last and by id,
every other shape after the shapes it refers to.

* `ofGraph_valid`: the order that depth-first search gives is valid. A node on no cycle is left after
  its successors, since a successor that is left later leads back to it (`Settled`).
* `misplaced?_eq_none`: so the check at the end never fails.
* `emissionOrder_correct`: the emission order exists whenever the walk succeeds, and is valid.
-/

namespace ClientGen

open Relation

/-- The first entry stands before the second. -/
def Precedes (l : List ShapeId) (a b : ShapeId) : Prop :=
  ∃ front back, l = front ++ b :: back ∧ a ∈ front

/-- In a list without repetition, what precedes an entry stands in front of its one place. -/
theorem Precedes.mem_front {front back : List ShapeId} {a b : ShapeId}
    (hnd : (front ++ b :: back).Nodup) (h : Precedes (front ++ b :: back) a b) : a ∈ front := by
  obtain ⟨front', back', heq, ha⟩ := h
  obtain ⟨-, hback, hfront⟩ := List.nodup_append.1 hnd
  have hf : b ∉ front := fun hb => hfront b hb b (by simp) rfl
  have hb : b ∉ back := (List.nodup_cons.1 hback).1
  rw [((List.append_cons_inj_of_notMem hf hb).1 heq).1]
  exact ha

namespace EmissionOrder

/-- What the emission order of the shapes `nodes` is. -/
structure Valid (m : Model) (nodes : List ShapeId) (o : EmissionOrder) : Prop where
  nodup : o.all.Nodup
  mem_all : ∀ id, id ∈ o.all ↔ id ∈ nodes
  /-- Recursive are the shapes that a path of at least one reference leads back to. -/
  mem_recursive : ∀ id, id ∈ o.recursive ↔ TransGen (m.RefersWithin nodes) id id
  ascending : o.recursive.Pairwise fun a b => compare a b = .lt
  targets_first : ∀ a ∈ o.ordered, ∀ b, m.RefersWithin nodes a b → b ∉ o.recursive →
    Precedes o.ordered b a

variable {g : ReferenceGraph}

theorem mem_ofGraph_recursive (hg : g.Closed) (id : ShapeId) :
    id ∈ (ofGraph g).recursive ↔ TransGen (fun a b => b ∈ g.successors a) id id := by
  unfold ofGraph
  simp only [Model.mem_sortIds, List.mem_filter, ReferenceGraph.onCycle_iff hg]
  refine ⟨fun h => h.2, fun h => ⟨?_, h⟩⟩
  obtain ⟨b, -, hb⟩ := TransGen.tail'_iff.1 h
  exact hg b id hb

theorem ofGraph_ordered (g : ReferenceGraph) :
    (ofGraph g).ordered = g.finishOrder.filter fun id => !(ofGraph g).recursive.contains id := by
  show g.finishOrder.filter _ = g.finishOrder.filter _
  apply List.filter_congr
  intro id _
  congr 1
  rw [Bool.eq_iff_iff, List.contains_iff_mem, List.contains_iff_mem]
  exact Model.mem_sortIds.symm

theorem mem_ofGraph_ordered (hg : g.Closed) (id : ShapeId) :
    id ∈ (ofGraph g).ordered ↔ id ∈ g.nodes ∧ id ∉ (ofGraph g).recursive := by
  rw [ofGraph_ordered, List.mem_filter, ReferenceGraph.finishOrder, List.mem_reverse,
    (ReferenceGraph.finished_visitAll_nodes hg).2.2]
  simp

/-- A settled list, last one first, places the successors of a node before it unless they lead to
it. -/
theorem settled_precedes {left : List ShapeId} (h : g.Settled left) {a b : ShapeId} (ha : a ∈ left)
    (hb : b ∈ g.successors a) (hne : ¬ g.Leads b a) (keep : ShapeId → Bool) (hka : keep a = true)
    (hkb : keep b = true) : Precedes (left.reverse.filter keep) b a := by
  induction left with
  | nil => simp at ha
  | cons c left ih =>
    obtain ⟨hc, hleft⟩ := h
    rw [List.reverse_cons, List.filter_append]
    rcases List.mem_cons.1 ha with rfl | ha
    · have hbl : b ∈ left := (hc b hb).resolve_right hne
      exact ⟨left.reverse.filter keep, [], by simp [hka], by simp [hbl, hkb]⟩
    · obtain ⟨front, back, heq, hbf⟩ := ih hleft ha
      exact ⟨front, back ++ [c].filter keep, by rw [heq]; simp, hbf⟩

theorem ofGraph_targets_first (hg : g.Closed) {a b : ShapeId} (ha : a ∈ (ofGraph g).ordered)
    (hb : b ∈ g.successors a) (hbr : b ∉ (ofGraph g).recursive) : Precedes (ofGraph g).ordered b a := by
  obtain ⟨hnode, har⟩ := (mem_ofGraph_ordered hg a).1 ha
  obtain ⟨hset, -, hmem⟩ := ReferenceGraph.finished_visitAll_nodes hg
  rw [ofGraph_ordered, ReferenceGraph.finishOrder]
  refine settled_precedes hset ((hmem a).2 hnode) hb ?_ _ (by simpa using har) (by simpa using hbr)
  -- a successor that led back would put the node on a cycle
  intro hl
  exact har ((mem_ofGraph_recursive hg a).2 (.head' hb hl))

theorem ofGraph_nodup (hg : g.Closed) (hn : g.nodes.Nodup) : (ofGraph g).all.Nodup := by
  have hord : (ofGraph g).ordered.Nodup := by
    rw [ofGraph_ordered]
    exact (List.nodup_reverse.2 (ReferenceGraph.finished_visitAll_nodes hg).2.1).filter _
  have hrec : (ofGraph g).recursive.Nodup := Model.sortIds_nodup (hn.filter _)
  refine List.nodup_append.2 ⟨hord, hrec, ?_⟩
  rintro a ha b hb rfl
  exact ((mem_ofGraph_ordered hg a).1 ha).2 hb

/-- **The order of a graph is valid**, if the graph is that of the references among `nodes`. -/
theorem ofGraph_valid {m : Model} {nodes : List ShapeId} (hn : nodes.Nodup) (hgn : g.nodes = nodes)
    (hge : ∀ a b, b ∈ g.successors a ↔ m.RefersWithin nodes a b) : Valid m nodes (ofGraph g) := by
  have hg : g.Closed := fun a b hb => hgn ▸ ((hge a b).1 hb).2.1
  have hrel : (fun a b => b ∈ g.successors a) = m.RefersWithin nodes :=
    funext fun a => funext fun b => propext (hge a b)
  have hrec : ∀ id, id ∈ (ofGraph g).recursive ↔ TransGen (m.RefersWithin nodes) id id := by
    intro id
    rw [mem_ofGraph_recursive hg, hrel]
  refine ⟨ofGraph_nodup hg (hgn ▸ hn), ?_, hrec, Model.sortIds_ascending ((hgn ▸ hn).filter _), ?_⟩
  · intro id
    rw [all, List.mem_append, mem_ofGraph_ordered hg, hgn]
    constructor
    · rintro (h | h)
      · exact h.1
      · obtain ⟨b, -, hb⟩ := TransGen.tail'_iff.1 ((hrec id).1 h)
        exact hb.2.1
    · intro h
      by_cases hr : id ∈ (ofGraph g).recursive
      · exact .inr hr
      · exact .inl ⟨h, hr⟩
  · intro a ha b hb hbr
    exact ofGraph_targets_first hg ha ((hge a b).2 hb) hbr

theorem misplaced?_eq_none (g : ReferenceGraph) (o : EmissionOrder) :
    ∀ (rest placed : List ShapeId), (placed.reverse ++ rest).Nodup →
      (∀ a ∈ rest, ∀ b ∈ g.successors a, b ∉ o.recursive → Precedes (placed.reverse ++ rest) b a) →
      misplaced? g o placed rest = none := by
  intro rest
  induction rest with
  | nil => intro _ _ _; rfl
  | cons id rest ih =>
    intro placed hnd hfirst
    have hok : ((g.successors id).all fun t => o.isRecursive t || placed.contains t) = true := by
      rw [List.all_eq_true]
      intro b hb
      by_cases hr : b ∈ o.recursive
      · simp [isRecursive, hr]
      · have hp := (hfirst id (by simp) b hb hr).mem_front hnd
        simp [List.mem_reverse.1 hp]
    rw [misplaced?, if_pos hok]
    apply ih (id :: placed)
    · simpa using hnd
    · intro a ha b hb hr
      simpa using hfirst a (List.mem_cons_of_mem _ ha) b hb hr

theorem of_walk_ok {m : Model} {root : ShapeId} {nodes : List ShapeId} (h : m.walk root = .ok nodes) :
    ∃ o, of m root = .ok o ∧ Valid m nodes o := by
  obtain ⟨g, hg, hgn, hge⟩ := Model.referenceGraph_ok h
  have hv := ofGraph_valid (Model.walk_ok h).nodup hgn hge
  have hnone : misplaced? g (ofGraph g) [] (ofGraph g).ordered = none := by
    apply misplaced?_eq_none
    · exact (List.nodup_append.1 hv.nodup).1
    · intro a ha b hb hr
      exact hv.targets_first a ha b ((hge a b).1 hb) hr
  refine ⟨ofGraph g, ?_, hv⟩
  unfold of
  rw [hg]
  dsimp only [bind, Except.bind]
  rw [hnone]
  rfl

theorem of_walk_error {m : Model} {root : ShapeId} {e : Error} (h : m.walk root = .error e) :
    of m root = .error e := by
  unfold of
  rw [Model.referenceGraph_error h]
  rfl

theorem valid_of_ok {m : Model} {root : ShapeId} {o : EmissionOrder} (h : of m root = .ok o) :
    ∃ nodes, m.walk root = .ok nodes ∧ Valid m nodes o := by
  cases hwalk : m.walk root with
  | error e =>
    rw [of_walk_error hwalk] at h
    cases h
  | ok nodes =>
    obtain ⟨o', ho', hvalid⟩ := of_walk_ok hwalk
    cases h.symm.trans ho'
    exact ⟨nodes, rfl, hvalid⟩

end EmissionOrder

end ClientGen
