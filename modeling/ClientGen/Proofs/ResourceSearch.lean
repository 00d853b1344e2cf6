import ClientGen.Proofs.DefinedOnce
import Mathlib.Data.List.Perm.Subperm
import Mathlib.Logic.Relation

/-!
# The search for the resources of a service

A service holds resources, these nest other resources, and those again others; a resource may be nested in several and,
in the end, in itself. The search keeps the ids that it still has to look at on a stack, and passes over those that it
has seen.

* `Assembly.boundOperations_search`: from every stack there is such a run, and the bounded search has its outcome.
* `Assembly.Search.covers`, `Assembly.Search.missing_led`: what a run has found at its end, and what it stops at.
* `Assembly.found_cases`: so the search fails if the ids lead to one without a resource, and otherwise
  finds the operations of the resources that they lead to, and no others.
-/

namespace ClientGen.Assembly

open Relation

variable {a : Assembly} {stack seen ops held : List ShapeId} {out : Except ShapeId (List ShapeId)}
  {service id : ShapeId}

/-- The second id is one of those that the resource of the first nests. -/
def Nests (a : Assembly) (id nested : ShapeId) : Prop := ∃ r, a.resource? id = some r ∧ nested ∈ r.resources

/-- One of the ids leads to the id, through resources that nest one another. -/
def Leads (a : Assembly) (ids : List ShapeId) (id : ShapeId) : Prop := ∃ root ∈ ids, ReflTransGen a.Nests root id

/-- The operation is bound to a resource that the ids lead to. -/
def Binds (a : Assembly) (ids : List ShapeId) (op : ShapeId) : Prop :=
  ∃ id r, a.Leads ids id ∧ a.resource? id = some r ∧ op ∈ r.operations

/-- A run of the search with the stack and the ids that it has seen: it ends with operations, or at an id
that has no resource. -/
inductive Search (a : Assembly) : List ShapeId → List ShapeId → Except ShapeId (List ShapeId) → Prop
  | done {seen : List ShapeId} : Search a [] seen (.ok [])
  | skip {id : ShapeId} {stack seen : List ShapeId} {out : Except ShapeId (List ShapeId)} :
      id ∈ seen → Search a stack seen out → Search a (id :: stack) seen out
  | missing {id : ShapeId} {stack seen : List ShapeId} :
      id ∉ seen → a.resource? id = none → Search a (id :: stack) seen (.error id)
  /-- What a resource nests goes on top of the stack, the last on top. -/
  | visit {id : ShapeId} {stack seen : List ShapeId} {r : Resource} {out : Except ShapeId (List ShapeId)} :
      id ∉ seen → a.resource? id = some r → Search a (r.resources.reverse ++ stack) (id :: seen) out →
      Search a (id :: stack) seen (out.map (r.operations ++ ·))

/-! ### Every search ends -/

theorem resource?_isSome_mem {r : Resource} (h : a.resource? id = some r) : id ∈ a.resources.map Prod.fst := by
  obtain ⟨e, he, -⟩ := Option.map_eq_some_iff.1 h
  have hid : e.1 = id := eq_of_beq (List.find?_some (p := fun r : ShapeId × Resource => r.1 == id) he)
  exact hid ▸ List.mem_map_of_mem (List.mem_of_find?_eq_some he)

theorem seen_length_le (hnodup : seen.Nodup) (hseen : ∀ id ∈ seen, ∃ r, a.resource? id = some r) :
    seen.length ≤ a.resources.length := by
  have hsub : seen ⊆ a.resources.map Prod.fst := by
    intro id hid
    obtain ⟨r, hr⟩ := hseen id hid
    exact resource?_isSome_mem hr
  simpa using (hnodup.subperm hsub).length_le

theorem Search.of_dropWhile {rest : List ShapeId} (hdrop : stack.dropWhile seen.contains = rest)
    (h : Search a rest seen out) : Search a stack seen out := by
  induction stack with
  | nil =>
    cases hdrop
    exact h
  | cons id stack ih =>
    rw [List.dropWhile_cons] at hdrop
    split at hdrop
    · next hid => exact .skip (List.contains_iff_mem.1 hid) (ih hdrop)
    · cases hdrop
      exact h

/-- **Every search ends**, and the bounded one has its outcome if the bound exceeds the number of resources that have
not been seen. -/
theorem boundOperations_search (service : ShapeId) : ∀ (fuel : Nat) (stack seen : List ShapeId), seen.Nodup →
    (∀ id ∈ seen, ∃ r, a.resource? id = some r) → a.resources.length < seen.length + fuel →
    ∃ out, Search a stack seen out ∧ boundOperations a.resources service fuel stack seen =
      out.mapError fun id => .invalidModel (.unknownResource service id) := by
  intro fuel
  -- a visit takes one from the bound and adds one to the ids that have been seen
  induction fuel with
  | zero =>
    intro stack seen hnodup hseen hfuel
    have := seen_length_le hnodup hseen
    omega
  | succ fuel ih =>
    intro stack seen hnodup hseen hfuel
    unfold boundOperations
    cases hdrop : stack.dropWhile seen.contains with
    | nil => exact ⟨.ok [], .of_dropWhile hdrop .done, rfl⟩
    | cons id rest =>
      have hnew : id ∉ seen := by
        have := List.head?_dropWhile_not seen.contains stack
        rw [hdrop] at this
        simpa using this
      have hget : a.resource? id = (a.resources.find? fun r => r.1 == id).map (·.2) := rfl
      dsimp only
      cases hfind : a.resources.find? fun r => r.1 == id with
      | none =>
        rw [hfind] at hget
        exact ⟨.error id, .of_dropWhile hdrop (.missing hnew hget), rfl⟩
      | some e =>
        rw [hfind] at hget
        obtain ⟨out, hsearch, hout⟩ := ih (e.2.resources.reverse ++ rest) (id :: seen)
          (List.nodup_cons.2 ⟨hnew, hnodup⟩) (List.forall_mem_cons.2 ⟨⟨_, hget⟩, hseen⟩)
          (by rw [List.length_cons]; omega)
        refine ⟨out.map (e.2.operations ++ ·), .of_dropWhile hdrop (.visit hnew hget hsearch), ?_⟩
        dsimp only
        rw [hout]
        cases out <;> rfl

/-! ### What a search finds -/

/-- A search with the stack has visited the ids beyond those seen, and has found the operations. -/
structure Covers (a : Assembly) (stack seen visited ops : List ShapeId) : Prop where
  operations : ∀ op, op ∈ ops ↔ ∃ id ∈ visited, ∃ r, a.resource? id = some r ∧ op ∈ r.operations
  defined : ∀ id ∈ visited, ∃ r, a.resource? id = some r
  led : ∀ id ∈ visited, a.Leads stack id
  stack : ∀ id ∈ stack, id ∈ seen ∨ id ∈ visited
  closed : ∀ id ∈ visited, ∀ nested, a.Nests id nested → nested ∈ seen ∨ nested ∈ visited

theorem Leads.mono {ids ids' : List ShapeId} (h : a.Leads ids id) (hsub : ∀ id ∈ ids, id ∈ ids') : a.Leads ids' id := by
  obtain ⟨root, hroot, hpath⟩ := h
  exact ⟨root, hsub root hroot, hpath⟩

/-- What leads on from a resource that was put on the stack is led to by the resource or by the rest of the stack. -/
theorem Leads.of_visit {r : Resource} {top : ShapeId} (hr : a.resource? top = some r)
    (h : a.Leads (r.resources.reverse ++ stack) id) : a.Leads (top :: stack) id := by
  obtain ⟨root, hroot, hpath⟩ := h
  rcases List.mem_append.1 hroot with hroot | hroot
  · exact ⟨top, List.mem_cons_self, .head ⟨r, hr, List.mem_reverse.1 hroot⟩ hpath⟩
  · exact ⟨root, List.mem_cons_of_mem _ hroot, hpath⟩

theorem Covers.visit {r : Resource} {visited : List ShapeId} (hr : a.resource? id = some r)
    (h : Covers a (r.resources.reverse ++ stack) (id :: seen) visited ops) :
    Covers a (id :: stack) seen (id :: visited) (r.operations ++ ops) where
  operations op := by
    rw [List.mem_append, h.operations]
    constructor
    · rintro (hop | ⟨x, hx, hop⟩)
      · exact ⟨id, List.mem_cons_self, r, hr, hop⟩
      · exact ⟨x, List.mem_cons_of_mem _ hx, hop⟩
    · rintro ⟨x, hx, r', hr', hop⟩
      rcases List.mem_cons.1 hx with rfl | hx
      · cases hr.symm.trans hr'
        exact .inl hop
      · exact .inr ⟨x, hx, r', hr', hop⟩
  defined := List.forall_mem_cons.2 ⟨⟨r, hr⟩, h.defined⟩
  led := List.forall_mem_cons.2 ⟨⟨id, List.mem_cons_self, .refl⟩, fun x hx => (h.led x hx).of_visit hr⟩
  stack := by
    refine List.forall_mem_cons.2 ⟨.inr List.mem_cons_self, fun x hx => ?_⟩
    have := h.stack x (List.mem_append_right _ hx)
    simp only [List.mem_cons] at this ⊢
    tauto
  closed x hx nested hnested := by
    have hmem : nested ∈ id :: seen ∨ nested ∈ visited := by
      rcases List.mem_cons.1 hx with rfl | hx
      · obtain ⟨r', hr', hmem⟩ := hnested
        cases hr.symm.trans hr'
        exact h.stack nested (List.mem_append_left _ (List.mem_reverse.2 hmem))
      · exact h.closed x hx nested hnested
    simp only [List.mem_cons] at hmem ⊢
    tauto

/-- **What a search that ends with operations has done.** -/
theorem Search.covers (h : Search a stack seen out) :
    ∀ ops, out = .ok ops → ∃ visited, Covers a stack seen visited ops := by
  induction h with
  | done =>
    rintro ops ⟨⟩
    exact ⟨[], by simp, by simp, by simp, by simp, by simp⟩
  | skip hid _ ih =>
    intro ops hops
    obtain ⟨visited, hcovers⟩ := ih ops hops
    exact ⟨visited, hcovers.operations, hcovers.defined,
      fun x hx => (hcovers.led x hx).mono fun _ => List.mem_cons_of_mem _,
      List.forall_mem_cons.2 ⟨.inl hid, hcovers.stack⟩, hcovers.closed⟩
  | missing _ _ => rintro ops ⟨⟩
  | visit _ hr _ ih =>
    intro ops hops
    obtain ⟨more, hmore, rfl⟩ := map_ok_iff.1 hops
    obtain ⟨visited, hcovers⟩ := ih more hmore
    exact ⟨_, hcovers.visit hr⟩

/-- **A search stops at an id without a resource** that the stack leads to. -/
theorem Search.missing_led (h : Search a stack seen out) :
    ∀ id, out = .error id → a.Leads stack id ∧ a.resource? id = none := by
  induction h with
  | done => rintro id ⟨⟩
  | skip _ _ ih =>
    intro id hid
    exact ⟨(ih id hid).1.mono fun _ => List.mem_cons_of_mem _, (ih id hid).2⟩
  | @missing top _ _ _ hnone =>
    rintro _ ⟨⟩
    exact ⟨⟨top, List.mem_cons_self, .refl⟩, hnone⟩
  | @visit _ _ _ _ out _ hr _ ih =>
    intro id hid
    cases out with
    | ok ops => cases hid
    | error e =>
      cases hid
      exact ⟨(ih id rfl).1.of_visit hr, (ih id rfl).2⟩

theorem Covers.mem_visited {visited : List ShapeId} (h : Covers a stack [] visited ops) :
    id ∈ visited ↔ a.Leads stack id := by
  refine ⟨h.led id, ?_⟩
  rintro ⟨root, hroot, hpath⟩
  induction hpath with
  | refl => exact (h.stack root hroot).resolve_left List.not_mem_nil
  | tail _ hnests ih => exact (h.closed _ ih _ hnests).resolve_left List.not_mem_nil

theorem leads_reverse : a.Leads held.reverse id ↔ a.Leads held id := by
  unfold Leads
  simp only [List.mem_reverse]

/-- The operations that a service finds with the resources that it holds. -/
def found (a : Assembly) (service : ShapeId) (held : List ShapeId) : Except Error (List ShapeId) :=
  boundOperations a.resources service (a.resources.length + 1) held.reverse []

/-- **What a service finds.** Either it is led to an id without a resource, and fails with such an id; or all ids
that it is led to have resources, and it finds their operations. -/
theorem found_cases (a : Assembly) (service : ShapeId) (held : List ShapeId) :
    (∃ id, a.Leads held id ∧ a.resource? id = none ∧
      a.found service held = .error (.invalidModel (.unknownResource service id))) ∨
    ∃ ops, a.found service held = .ok ops ∧ (∀ id, a.Leads held id → a.resource? id ≠ none) ∧
      ∀ op, op ∈ ops ↔ a.Binds held op := by
  obtain ⟨out, hsearch, hout⟩ := boundOperations_search (a := a) service (a.resources.length + 1) held.reverse []
    List.nodup_nil (by simp) (by simp)
  cases out with
  | error id =>
    obtain ⟨hled, hnone⟩ := hsearch.missing_led id rfl
    exact .inl ⟨id, leads_reverse.1 hled, hnone, hout⟩
  | ok ops =>
    obtain ⟨visited, hcovers⟩ := hsearch.covers ops rfl
    have hvisited : ∀ id, id ∈ visited ↔ a.Leads held id := fun id => hcovers.mem_visited.trans leads_reverse
    refine .inr ⟨ops, hout, fun id hid => ?_, fun op => ?_⟩
    · obtain ⟨r, hr⟩ := hcovers.defined id ((hvisited id).2 hid)
      rw [hr]
      exact Option.some_ne_none r
    · rw [hcovers.operations]
      constructor
      · rintro ⟨id, hid, r, hr, hop⟩
        exact ⟨id, r, (hvisited id).1 hid, hr, hop⟩
      · rintro ⟨id, r, hid, hr, hop⟩
        exact ⟨id, (hvisited id).2 hid, r, hr, hop⟩

end ClientGen.Assembly
