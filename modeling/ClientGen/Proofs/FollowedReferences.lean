import ClientGen.Model.Assembly
import ClientGen.Proofs.EmissionOrder
import ClientGen.Proofs.Reachability
import Mathlib

/-!
# References that the walk follows and edges that shapes are ordered by

The walk resolves what a shape refers to, so a reference to a member leads to the shape that holds it. The edges of
the emission order are the references as they are written, and a reference to a member is none of them.

* `Model.Follows m nodes a b`: the walk follows a reference of the shape `a` to the declared shape `b`.
* `refersWithin_iff`: edges are the followed references to shapes that are also referred to by their own ids.
* `follows_ordered_iff`: every reference that is followed is an edge if and only if it is spelled out, and then the
  emission order holds of all references that are followed.
-/

namespace ClientGen.Model

open Relation

variable {m : Model} {root a b : ShapeId} {nodes : List ShapeId}

/-- A reference of a shape of the set that leads to a declared shape. -/
def Follows (m : Model) (nodes : List ShapeId) (a b : ShapeId) : Prop :=
  a ∈ nodes ∧ m.Refers a b ∧ m.declares b = true

/-- Whatever declared shape a shape of the set refers to, it refers to by the id of that shape. -/
def SpelledOut (m : Model) (nodes : List ShapeId) : Prop :=
  ∀ a ∈ nodes, ∀ s, m.get? a = some s → ∀ target ∈ s.references, m.declares target.root = true →
    target.root ∈ s.references

theorem Follows.mem (h : m.walk root = .ok nodes) (hab : m.Follows nodes a b) : b ∈ nodes := by
  obtain ⟨ha, href, hdeclared⟩ := hab
  rcases (walk_frontier h).edges a ha b href hdeclared with hb | ⟨s, hs, -⟩
  · exact hb
  · cases hs

/-- A reference leads to the declared shape whose id it has, up to a member part. -/
theorem follows_iff : m.Follows nodes a b ↔
    a ∈ nodes ∧ m.declares b = true ∧ ∃ s, m.get? a = some s ∧ ∃ target ∈ s.references, target.root = b := by
  constructor
  · rintro ⟨ha, ⟨s, hs, target, htarget, next, hnext, rfl⟩, hdeclared⟩
    exact ⟨ha, hdeclared, s, hs, target, htarget, (get?_id hnext).1.symm⟩
  · rintro ⟨ha, hdeclared, s, hs, target, htarget, rfl⟩
    obtain ⟨next, hnext⟩ := declares_iff.1 hdeclared
    have hget : m.get? target = some next := by
      unfold get?
      rw [hnext]
    exact ⟨ha, ⟨s, hs, target, htarget, next, hget, declared?_id hnext⟩, hdeclared⟩

/-- **Edges are the followed references that are written with the shape's own id.** -/
theorem refersWithin_iff (h : m.walk root = .ok nodes) : m.RefersWithin nodes a b ↔
    m.Follows nodes a b ∧ ∃ s, m.get? a = some s ∧ b ∈ s.references := by
  constructor
  · rintro ⟨ha, hb, s, hs, href⟩
    obtain ⟨hdeclared, next, hnext, rfl⟩ := (walk_ok h).declared b hb
    exact ⟨⟨ha, ⟨s, hs, next.id, href, next, hnext, rfl⟩, hdeclared⟩, s, hs, href⟩
  · rintro ⟨hab, hwritten⟩
    exact ⟨hab.1, hab.mem h, hwritten⟩

theorem refersWithin_of_follows_iff (h : m.walk root = .ok nodes) :
    (∀ a b, m.Follows nodes a b → m.RefersWithin nodes a b) ↔ m.SpelledOut nodes := by
  constructor
  · intro hall a ha s hs target htarget hdeclared
    have hfollows : m.Follows nodes a target.root := follows_iff.2 ⟨ha, hdeclared, s, hs, target, htarget, rfl⟩
    obtain ⟨-, -, s', hs', href⟩ := hall a target.root hfollows
    rw [hs] at hs'
    cases hs'
    exact href
  · intro hspelled a b hab
    obtain ⟨ha, hdeclared, s, hs, target, htarget, rfl⟩ := follows_iff.1 hab
    exact (refersWithin_iff h).2 ⟨hab, s, hs, hspelled a ha s hs target htarget hdeclared⟩

/-- Where references are spelled out, edges and followed references are the same. -/
theorem refersWithin_eq_follows (h : m.walk root = .ok nodes) (hspelled : m.SpelledOut nodes) :
    m.RefersWithin nodes = m.Follows nodes := by
  funext a b
  exact propext ⟨fun hab => ((refersWithin_iff h).1 hab).1, (refersWithin_of_follows_iff h).2 hspelled a b⟩

/-- **The edges of the emission order against the references that the walk follows.** Every edge is a reference that
is followed. One that is followed is an edge just if it is also written with the id of the shape it leads to, so the
edges are all of them if and only if every reference to a declared shape is spelled out. If so, the order puts the
shapes that the walk goes on to first and tells apart those it comes back to. -/
theorem follows_ordered_iff (h : m.walk root = .ok nodes) :
    ∃ g, m.referenceGraph root = .ok g ∧
      (∀ a b, b ∈ g.successors a ↔ m.Follows nodes a b ∧ ∃ s, m.get? a = some s ∧ b ∈ s.references) ∧
      ((∀ a b, m.Follows nodes a b → b ∈ g.successors a) ↔ m.SpelledOut nodes) ∧
      (m.SpelledOut nodes → ∃ o, EmissionOrder.of m root = .ok o ∧
        (∀ id, id ∈ o.recursive ↔ TransGen (m.Follows nodes) id id) ∧
        ∀ a ∈ o.ordered, ∀ b, m.Follows nodes a b → b ∉ o.recursive → Precedes o.ordered b a) := by
  obtain ⟨g, hg, -, hedges⟩ := referenceGraph_ok h
  refine ⟨g, hg, fun a b => ?_, ?_, fun hspelled => ?_⟩
  · rw [hedges, refersWithin_iff h]
  · simp only [hedges]
    exact refersWithin_of_follows_iff h
  · obtain ⟨o, ho, hvalid⟩ := EmissionOrder.of_walk_ok h
    refine ⟨o, ho, fun id => ?_, fun a ha b hab hb => ?_⟩
    · rw [← refersWithin_eq_follows h hspelled]
      exact hvalid.mem_recursive id
    · rw [← refersWithin_eq_follows h hspelled] at hab
      exact hvalid.targets_first a ha b hab hb

/-- A document of a structure whose member targets a member of another structure. -/
def borrowingText : String :=
  "\x7b\"shapes\": \x7b" ++
    "\"ex#A\": \x7b\"type\": \"structure\", \"members\": \x7b\"m\": \x7b\"target\": \"ex#B$x\"\x7d\x7d\x7d, " ++
    "\"ex#B\": \x7b\"type\": \"structure\", \"members\": \x7b\"x\": \x7b\"target\": \"smithy.api#String\"\x7d\x7d\x7d\x7d\x7d"

def borrower : ShapeId := { ns := "ex", name := "A" }
def lender : ShapeId := { ns := "ex", name := "B" }

/-- The model of the document. -/
def borrowing : Model where
  shapes := [
    { id := borrower, kind := .struct [{ id := borrower.withMember "m", target := lender.withMember "x" }] },
    { id := lender, kind := .struct [{ id := lender.withMember "x", target := .prelude "String" }] }]
  distinct := by decide

theorem get?_borrower : borrowing.get? borrower = some borrowing.shapes[0] := by rfl

theorem walk_borrowing : borrowing.walk borrower = .ok [borrower, lender] := by
  have hseen : borrowing.walkFrom 3 [borrowing.shapes[0]] [] = .ok [lender, borrower] := by rfl
  have hsorted : sortIds [lender, borrower] = [borrower, lender] := by cbv
  exact bind_ok_iff.2 ⟨_, expect_eq_ok.2 get?_borrower, bind_ok_iff.2 ⟨_, hseen, congrArg Except.ok hsorted⟩⟩

/-- The walk follows the reference to the member, but there is no edge for it, and the structure comes before the
one that it refers to. -/
theorem borrowing_misordered : ofDocument borrowingText = .ok borrowing ∧
    borrowing.walk borrower = .ok [borrower, lender] ∧
    borrowing.Follows [borrower, lender] borrower lender ∧
    (∃ g, borrowing.referenceGraph borrower = .ok g ∧ lender ∉ g.successors borrower) ∧
    EmissionOrder.of borrowing borrower = .ok { ordered := [borrower, lender], recursive := [] } := by
  have hload : ofDocument borrowingText = .ok borrowing := by cbv
  have hfollows : borrowing.Follows [borrower, lender] borrower lender :=
    follows_iff.2 ⟨List.mem_cons_self, by decide, _, get?_borrower, lender.withMember "x", List.mem_cons_self, rfl⟩
  obtain ⟨g, hg, hedges, -⟩ := follows_ordered_iff walk_borrowing
  refine ⟨hload, walk_borrowing, hfollows, ⟨g, hg, fun hmem => ?_⟩, ?_⟩
  · obtain ⟨-, s, hs, href⟩ := (hedges borrower lender).1 hmem
    rw [get?_borrower] at hs
    cases hs
    exact absurd href (by decide)
  · unfold EmissionOrder.of
    rw [referenceGraph_eq walk_borrowing]
    with_unfolding_all rfl

end ClientGen.Model
