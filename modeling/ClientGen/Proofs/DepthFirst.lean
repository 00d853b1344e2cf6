import ClientGen.EmissionOrder
import Mathlib.Data.List.Perm.Subperm
import Mathlib.Logic.Relation

/-!
# Depth-first search on a reference graph

`ReferenceGraph.visit` enters a node, searches from its successors in turn and leaves it. A node that
has been entered and not left is **open**: the search stands below it.

* `Sound g s`: what holds of a search at every moment. The successors of a node that has been left
  have been entered, and each of them was left earlier or leads to the node (`Settled`).
* `Extends g ids s s'`: a search from `ids` has taken `s` to `s'`. It has entered only what `ids` lead
  to, and the same nodes are open as before.
* `visit_spec`: one visit keeps a search sound and extends it. The invariant is that every open node
  leads to the node that is visited.
* `visitAll_entered`: searching from some nodes enters exactly what they lead to.
* `onCycle_iff`: a node is on a cycle exactly if a path of at least one edge leads back to it.
* `finished_visitAll_nodes`: searching from all nodes leaves each of them once.
-/

namespace ClientGen.ReferenceGraph

open Relation

/-- A path, possibly without an edge, leads from the first node to the second. -/
abbrev Leads (g : ReferenceGraph) : ShapeId → ShapeId → Prop :=
  ReflTransGen fun a b => b ∈ g.successors a

/-- Edges stay within the nodes. -/
def Closed (g : ReferenceGraph) : Prop := ∀ a, ∀ b ∈ g.successors a, b ∈ g.nodes

/-- Nodes that were left, the last one first: each successor of a node was left before it, or leads
to it. -/
def Settled (g : ReferenceGraph) : List ShapeId → Prop
  | [] => True
  | a :: left => (∀ b ∈ g.successors a, b ∈ left ∨ g.Leads b a) ∧ g.Settled left

/-- What holds of a search at every moment. -/
structure Sound (g : ReferenceGraph) (s : Search) : Prop where
  entered_nodup : s.entered.Nodup
  finished_nodup : s.finished.Nodup
  entered_nodes : ∀ a ∈ s.entered, a ∈ g.nodes
  finished_entered : ∀ a ∈ s.finished, a ∈ s.entered
  successors_entered : ∀ a ∈ s.finished, ∀ b ∈ g.successors a, b ∈ s.entered
  settled : g.Settled s.finished

/-- The search stands below the node. -/
def Search.Open (s : Search) (a : ShapeId) : Prop := a ∈ s.entered ∧ a ∉ s.finished

/-- A search from `ids` has taken `s` to `s'`. -/
structure Extends (g : ReferenceGraph) (ids : List ShapeId) (s s' : Search) : Prop where
  entered : ∀ a ∈ s.entered, a ∈ s'.entered
  sources : ∀ a ∈ ids, a ∈ s'.entered
  reached : ∀ a ∈ s'.entered, a ∈ s.entered ∨ ∃ id ∈ ids, g.Leads id a
  open_iff : ∀ a, s'.Open a ↔ s.Open a

variable {g : ReferenceGraph} {s s' : Search} {id : ShapeId}

theorem Sound.empty (g : ReferenceGraph) : g.Sound {} :=
  ⟨List.nodup_nil, List.nodup_nil, by simp, by simp, by simp, trivial⟩

theorem Sound.length_le (h : g.Sound s) : s.entered.length ≤ g.edges.length := by
  have hsub : s.entered ⊆ g.nodes := h.entered_nodes
  have := (h.entered_nodup.subperm hsub).length_le
  simpa [nodes] using this

theorem Extends.refl (s : Search) : g.Extends [] s s :=
  ⟨fun _ h => h, by simp, fun _ h => .inl h, fun _ => Iff.rfl⟩

theorem Extends.of_mem (h : id ∈ s.entered) : g.Extends [id] s s :=
  ⟨fun _ h => h, by simpa using h, fun _ h => .inl h, fun _ => Iff.rfl⟩

theorem Extends.trans {ids : List ShapeId} {s'' : Search} (h1 : g.Extends [id] s s')
    (h2 : g.Extends ids s' s'') : g.Extends (id :: ids) s s'' where
  entered a ha := h2.entered a (h1.entered a ha)
  sources a ha := by
    rcases List.mem_cons.1 ha with rfl | ha
    · exact h2.entered a (h1.sources a (by simp))
    · exact h2.sources a ha
  reached a ha := by
    rcases h2.reached a ha with ha | ⟨i, hi, hl⟩
    · rcases h1.reached a ha with ha | ⟨i, hi, hl⟩
      · exact .inl ha
      · exact .inr ⟨i, by simp_all, hl⟩
    · exact .inr ⟨i, List.mem_cons_of_mem _ hi, hl⟩
  open_iff a := (h2.open_iff a).trans (h1.open_iff a)

/-- A node that has not been entered is entered. -/
def Search.enter (s : Search) (id : ShapeId) : Search := { s with entered := id :: s.entered }

/-- The innermost open node is left. -/
def Search.leave (s : Search) (id : ShapeId) : Search := { s with finished := id :: s.finished }

theorem Sound.enter (h : g.Sound s) (hid : id ∈ g.nodes) (hnew : id ∉ s.entered) :
    g.Sound (s.enter id) where
  entered_nodup := List.nodup_cons.2 ⟨hnew, h.entered_nodup⟩
  finished_nodup := h.finished_nodup
  entered_nodes a ha := by
    rcases List.mem_cons.1 ha with rfl | ha
    · exact hid
    · exact h.entered_nodes a ha
  finished_entered a ha := List.mem_cons_of_mem _ (h.finished_entered a ha)
  successors_entered a ha b hb := List.mem_cons_of_mem _ (h.successors_entered a ha b hb)
  settled := h.settled

theorem Sound.open_enter (h : g.Sound s) (hnew : id ∉ s.entered) (a : ShapeId) :
    (s.enter id).Open a ↔ a = id ∨ s.Open a := by
  have hid : id ∉ s.finished := fun hf => hnew (h.finished_entered id hf)
  unfold Search.Open Search.enter
  simp only [List.mem_cons]
  constructor
  · rintro ⟨rfl | ha, hf⟩
    · exact .inl rfl
    · exact .inr ⟨ha, hf⟩
  · rintro (rfl | ⟨ha, hf⟩)
    · exact ⟨.inl rfl, hid⟩
    · exact ⟨.inr ha, hf⟩

/-- Leaving an open node whose successors have all been entered, while all open nodes lead to it. -/
theorem Sound.leave (h : g.Sound s) (hopen : s.Open id)
    (hsucc : ∀ b ∈ g.successors id, b ∈ s.entered) (hlead : ∀ a, s.Open a → g.Leads a id) :
    g.Sound (s.leave id) where
  entered_nodup := h.entered_nodup
  finished_nodup := List.nodup_cons.2 ⟨hopen.2, h.finished_nodup⟩
  entered_nodes := h.entered_nodes
  finished_entered a ha := by
    rcases List.mem_cons.1 ha with rfl | ha
    · exact hopen.1
    · exact h.finished_entered a ha
  successors_entered a ha b hb := by
    rcases List.mem_cons.1 ha with rfl | ha
    · exact hsucc b hb
    · exact h.successors_entered a ha b hb
  settled := by
    refine ⟨fun b hb => ?_, h.settled⟩
    -- a successor has been left already, or is open and so leads here
    by_cases hf : b ∈ s.finished
    · exact .inl hf
    · exact .inr (hlead b ⟨hsucc b hb, hf⟩)

/-- A search from the successors of `id`, between entering and leaving it, is a search from `id`. -/
theorem Extends.around (hs : g.Sound s) (hnew : id ∉ s.entered)
    (h : g.Extends (g.successors id) (s.enter id) s') : g.Extends [id] s (s'.leave id) where
  entered a ha := h.entered a (List.mem_cons_of_mem _ ha)
  sources a ha := by
    rw [List.mem_singleton] at ha
    subst ha
    exact h.entered a (List.mem_cons_self ..)
  reached a ha := by
    rcases h.reached a ha with ha | ⟨b, hb, hl⟩
    · rcases List.mem_cons.1 ha with rfl | ha
      · exact .inr ⟨a, by simp, .refl⟩
      · exact .inl ha
    · exact .inr ⟨id, by simp, .head hb hl⟩
  open_iff a := by
    have ho := (h.open_iff a).trans (hs.open_enter hnew a)
    unfold Search.Open Search.leave at *
    simp only [List.mem_cons, not_or]
    constructor
    · rintro ⟨ha, hne, hf⟩
      exact (ho.1 ⟨ha, hf⟩).resolve_left hne
    · rintro ha
      obtain ⟨h1, h2⟩ := ho.2 (.inr ha)
      exact ⟨h1, fun he => hnew (he ▸ ha.1), h2⟩

/-- What a visit with enough fuel does: open nodes lead to `id`, and at least as much fuel is left as
there are nodes to enter. -/
def VisitSpec (g : ReferenceGraph) (fuel : Nat) : Prop :=
  ∀ s id, g.Sound s → id ∈ g.nodes → (∀ a, s.Open a → g.Leads a id) →
    g.edges.length < fuel + s.entered.length →
    g.Sound (g.visit fuel s id) ∧ g.Extends [id] s (g.visit fuel s id)

theorem Extends.length_le {ids : List ShapeId} (hs : g.Sound s) (h : g.Extends ids s s') :
    s.entered.length ≤ s'.entered.length :=
  (hs.entered_nodup.subperm h.entered).length_le

theorem VisitSpec.foldl {fuel : Nat} (hv : g.VisitSpec fuel) :
    ∀ (ids : List ShapeId) (s : Search), g.Sound s → (∀ id ∈ ids, id ∈ g.nodes) →
      (∀ a, s.Open a → ∀ id ∈ ids, g.Leads a id) → g.edges.length < fuel + s.entered.length →
      g.Sound (ids.foldl (g.visit fuel) s) ∧ g.Extends ids s (ids.foldl (g.visit fuel) s) := by
  intro ids
  induction ids with
  | nil => intro s hs _ _ _; exact ⟨hs, .refl s⟩
  | cons id ids ih =>
    intro s hs hnodes hopen hfuel
    obtain ⟨hs1, he1⟩ := hv s id hs (hnodes id (by simp)) (fun a ha => hopen a ha id (by simp)) hfuel
    have hlen := he1.length_le hs
    obtain ⟨hs2, he2⟩ := ih (g.visit fuel s id) hs1 (fun i hi => hnodes i (List.mem_cons_of_mem _ hi))
      (fun a ha i hi => hopen a ((he1.open_iff a).1 ha) i (List.mem_cons_of_mem _ hi)) (by omega)
    exact ⟨hs2, he1.trans he2⟩

/-- **One visit**, by induction on the fuel: it keeps the search sound and extends it. -/
theorem visit_spec (hg : g.Closed) : ∀ fuel, g.VisitSpec fuel := by
  intro fuel
  induction fuel with
  | zero =>
    intro s id hs _ _ hfuel
    have := hs.length_le
    omega
  | succ fuel ih =>
    intro s id hs hid hopen hfuel
    unfold visit
    split
    · rename_i h
      exact ⟨hs, .of_mem (by simpa using h)⟩
    · rename_i h
      have hnew : id ∉ s.entered := by simpa using h
      have hs1 := hs.enter hid hnew
      have hopen1 : ∀ a, (s.enter id).Open a → g.Leads a id := by
        intro a ha
        rcases (hs.open_enter hnew a).1 ha with rfl | ha
        · exact .refl
        · exact hopen a ha
      obtain ⟨hs2, he2⟩ := ih.foldl (g.successors id) (s.enter id) hs1 (hg id)
        (fun a ha b hb => (hopen1 a ha).tail hb) (by simp only [Search.enter, List.length_cons]; omega)
      have hid2 := (he2.open_iff id).2 ((hs.open_enter hnew id).2 (.inl rfl))
      exact ⟨hs2.leave hid2 he2.sources fun a ha => hopen1 a ((he2.open_iff a).1 ha),
        he2.around hs hnew⟩

theorem visitAll_spec (hg : g.Closed) {ids : List ShapeId} (hids : ∀ id ∈ ids, id ∈ g.nodes) :
    g.Sound (g.visitAll ids) ∧ g.Extends ids {} (g.visitAll ids) :=
  (visit_spec hg (g.edges.length + 1)).foldl ids {} (.empty g) hids
    (fun a ha => absurd ha.1 (by simp)) (by simp)

theorem mem_finished_visitAll (hg : g.Closed) {ids : List ShapeId} (hids : ∀ id ∈ ids, id ∈ g.nodes)
    (a : ShapeId) : a ∈ (g.visitAll ids).finished ↔ a ∈ (g.visitAll ids).entered := by
  obtain ⟨hs, he⟩ := visitAll_spec hg hids
  refine ⟨hs.finished_entered a, fun ha => ?_⟩
  by_contra hf
  have := (he.open_iff a).1 ⟨ha, hf⟩
  simp [Search.Open] at this

/-- **A search enters exactly what its sources lead to.** -/
theorem visitAll_entered (hg : g.Closed) {ids : List ShapeId} (hids : ∀ id ∈ ids, id ∈ g.nodes)
    (a : ShapeId) : a ∈ (g.visitAll ids).entered ↔ ∃ id ∈ ids, g.Leads id a := by
  obtain ⟨hs, he⟩ := visitAll_spec hg hids
  constructor
  · intro ha
    exact (he.reached a ha).resolve_left (by simp)
  · rintro ⟨id, hid, hl⟩
    -- what has been entered has been left, so its successors have been entered too
    induction hl with
    | refl => exact he.sources id hid
    | tail _ hb ih => exact hs.successors_entered _ ((mem_finished_visitAll hg hids _).2 ih) _ hb

/-- **On a cycle**: a path of at least one edge leads back. -/
theorem onCycle_iff (hg : g.Closed) (a : ShapeId) :
    g.onCycle a = true ↔ TransGen (fun a b => b ∈ g.successors a) a a := by
  rw [onCycle, List.contains_iff_mem, visitAll_entered hg (hg a), TransGen.head'_iff]

theorem finished_visitAll_nodes (hg : g.Closed) :
    g.Settled (g.visitAll g.nodes).finished ∧ (g.visitAll g.nodes).finished.Nodup ∧
      ∀ a, a ∈ (g.visitAll g.nodes).finished ↔ a ∈ g.nodes := by
  obtain ⟨hs, he⟩ := visitAll_spec hg (fun _ h => h)
  refine ⟨hs.settled, hs.finished_nodup, fun a => ?_⟩
  rw [mem_finished_visitAll hg (fun _ h => h)]
  exact ⟨hs.entered_nodes a, he.sources a⟩

end ClientGen.ReferenceGraph
