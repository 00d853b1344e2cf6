import ClientGen.Proofs.LookupTermination

/-!
# What the marks of a lookup tell

A lookup marks the collections that it is on the way through, and takes a mark for a sign that the symbol depends on
itself. The marks are kept in the table that all lookups share, and a lookup can fail half way. If a failure left a mark
behind, a later lookup would take a collection for circular that is not. **No mark is ever left**, so a lookup says that
a symbol depends on itself where one does and only there.

* `Circular.no_rank` and `Circular.not_endless`: a chain of lookups that comes to one neither ends nor goes round among
  members.
* `symbol_marks_exact`: what lookups do in turn.
-/

namespace ClientGen.Provider

open Relation

variable {p : Provider} {m : Model} {id x : ShapeId}

/-- A collection whose elements lead back to it, with members on the way that stand for their targets. -/
structure Circular (m : Model) (x : ShapeId) : Prop where
  shape : x.member = none
  collection : ∃ element, ElementStep m x element
  back : TransGen (MadeFrom m) x x

/-- What is not a member and comes back to itself is a collection. -/
theorem circular_of_back (hx : x.member = none) (hback : TransGen (MadeFrom m) x x) : Circular m x := by
  refine ⟨hx, ?_, hback⟩
  obtain ⟨next, hmade, -⟩ := TransGen.head'_iff.1 hback
  cases hmade with
  | standsFor hst =>
    rw [standsFor?_of_no_member hx] at hst
    cases hst
  | @element _ e _ hs he =>
    refine ⟨e.target, Model.elementTarget?_eq_some.1 ?_⟩
    unfold Model.elementTarget?
    rw [hs, Option.bind_some, he]
    rfl

namespace Circular

/-- The chain that comes to a circular collection has no end. -/
theorem no_rank (h : Circular m x) (hreach : ReflTransGen (MadeFrom m) id x) (n : Nat) : ¬ Rank m id n :=
  fun hrank => hrank.not_circular hreach h.back

/-- On a chain a circular collection comes again after any place. -/
theorem recurs {chain : Nat → ShapeId} (hc : IsChain m chain) (h : Circular m x)
    (hreach : ReflTransGen (MadeFrom m) (chain 0) x) (bound : Nat) : ∃ k, bound ≤ k ∧ chain k = x := by
  obtain ⟨first, rfl⟩ := hc.exists_eq hreach
  obtain ⟨next, hmade, hback⟩ := TransGen.head'_iff.1 h.back
  cases hmade.unique (hc first)
  -- the chain from the next place on
  have hrest : IsChain m fun k => chain (first + 1 + k) := fun k => hc (first + 1 + k)
  obtain ⟨k, hk⟩ := hrest.exists_eq hback
  obtain ⟨again, hle, heq⟩ := hc.recurs (by omega : first < first + 1 + k) hk.symm bound
  exact ⟨again, hle, heq.trans hk⟩

/-- Nor does the chain go round among members: the collection is none, and it comes again and again. -/
theorem not_endless (h : Circular m x) (hreach : ReflTransGen (MadeFrom m) id x) : ¬ Endless m id := by
  intro hend
  obtain ⟨chain, rfl, hc⟩ := exists_chain (h.no_rank hreach)
  obtain ⟨start, hmembers⟩ := hend.members hc
  obtain ⟨k, hk, rfl⟩ := h.recurs hc hreach start
  exact hmembers k hk h.shape

end Circular

/-- An id with a chain that comes to a circular collection, if a lookup of it says that a symbol depends on itself. -/
theorem Idle.circular_of_symbol {t : Table} (ht : p.Idle m t)
    (h : ((p.symbol m id).run t).1 = .error (.invalidModel (.cyclicSymbol x))) :
    Circular m x ∧ ReflTransGen (MadeFrom m) id x := by
  have hrank : ∀ n, ¬ Rank m id n := fun n hn => ht.symbol_of_rank hn h (.cyclic x)
  have hend : ¬ Endless m id := by
    intro hendless
    obtain ⟨y, hy⟩ := ht.lookup_endless hendless (depth m)
    cases h.symm.trans hy
  obtain ⟨y, hy, hshape, hreach, hback⟩ := ht.symbol_cut_at hrank hend
  cases h.symm.trans hy
  exact ⟨circular_of_back hshape hback, hreach⟩

/-- **The marks are exact.** After any lookups, with or without success:
1. no mark is left, and within another lookup just the marks of that one;
2. if a lookup says that the symbol of `x` depends on itself, then `x` is a list, a set or a map whose elements lead
   back to it, and the lookup leads to it;
3. a lookup that leads to such a collection says so of one. -/
theorem symbol_marks_exact (p : Provider) (m : Model) (before : List ShapeId) (id : ShapeId) :
    (p.tableAfter m (before ++ [id])).resolving = [] ∧
    (∀ t : Table, ((p.symbol m id).run t).2.resolving = t.resolving) ∧
    (∀ x, ((p.symbol m id).run (p.tableAfter m before)).1 = .error (.invalidModel (.cyclicSymbol x)) →
      Circular m x ∧ ReflTransGen (MadeFrom m) id x) ∧
    ∀ x, Circular m x → ReflTransGen (MadeFrom m) id x →
      ∃ y, ((p.symbol m id).run (p.tableAfter m before)).1 = .error (.invalidModel (.cyclicSymbol y)) := by
  have ht := tableAfter_idle p m before
  refine ⟨(tableAfter_idle p m (before ++ [id])).unmarked, ?_, fun x => ht.circular_of_symbol, ?_⟩
  · intro t
    exact (lookup_marks (p := p) (m := m) (depth m) id t.resolving).of_run rfl
  · intro x hx hreach
    obtain ⟨y, hy, -⟩ := ht.symbol_cut (hx.no_rank hreach) (hx.not_endless hreach)
    exact ⟨y, hy⟩

end ClientGen.Provider
