import ClientGen.Model.Assembly
import ClientGen.Proofs.NamingExclusivity
import Mathlib

/-!
# Which lookups end

A lookup goes on from a collection to its elements and from a member that stands for its target to the target. It
marks the collections, and fails where it comes to a marked one; members are not marked. So a chain of lookups that
comes back to a collection is cut there, and one that goes round among members is never cut.

* `Extends.lookup`: a lookup that ends within a bound on the nesting is the same under every larger one.
* `lookup_cut` and `lookup_endless`: what lookups do in the two cases.
* `lookup_ends_iff`: a lookup ends, after any others, if and only if no circle of members is on its way.
-/

namespace ClientGen.Provider

open Relation

variable {t : Table} {e : Error} {n : Nat} {chain : Nat → ShapeId}

variable {p : Provider} {m : Model} {id next : ShapeId}

/-! ### The bound on the nesting -/

/-- The lookup did not run into the bound on the nesting. -/
def Ended (r : Except Error Symbol) : Prop := ∀ x, r ≠ .error (.invalidModel (.endlessSymbol x))

/-- The second computation does what the first does wherever that ends. -/
def Extends (x y : Names Symbol) : Prop := ∀ t, Ended (x.run t).1 → y.run t = x.run t

theorem Extends.refl {x : Names Symbol} : Extends x x := fun _ _ => Eq.refl _

theorem Extends.bind {x y : Names Symbol} {f : Symbol → Names Symbol} (h : Extends x y) :
    Extends (x >>= f) (y >>= f) := by
  intro t ht
  rw [run_bind] at ht ⊢
  rw [run_bind]
  cases hx : x.run t with
  | mk r t' =>
    have hend : Ended r := by
      rintro id rfl
      rw [hx] at ht
      exact ht id (Eq.refl _)
    rw [h t (hx ▸ hend), hx]

theorem Extends.tryCatch {x y : Names Symbol} {handler : Error → Names Symbol} (h : Extends x y)
    (hraise : ∀ e t, ((handler e).run t).1 = .error e) :
    Extends (MonadExcept.tryCatch x handler) (MonadExcept.tryCatch y handler) := by
  intro t ht
  rw [run_tryCatch] at ht ⊢
  rw [run_tryCatch]
  cases hx : x.run t with
  | mk r t' =>
    have hend : Ended r := by
      rintro id rfl
      rw [hx] at ht
      exact ht id (hraise _ t')
    rw [h t (hx ▸ hend), hx]

theorem Extends.after {α : Type} {x : Names α} {f g : α → Names Symbol} (h : ∀ a, Extends (f a) (g a)) :
    Extends (x >>= f) (x >>= g) := by
  intro t ht
  rw [run_bind] at ht ⊢
  rw [run_bind]
  cases hx : x.run t with
  | mk r t' =>
    cases r with
    | error e => rfl
    | ok a =>
      rw [hx] at ht
      exact h a t' ht

theorem Extends.defaultSymbol {l l' : ShapeId → Names Symbol} (h : ∀ next, Extends (l next) (l' next)) :
    Extends (p.defaultSymbol m l id) (p.defaultSymbol m l' id) := by
  cases hs : m.get? id with
  | none =>
    have hx : m.expect id = .error (.shapeNotFound id) := by unfold Model.expect; rw [hs]
    unfold Provider.defaultSymbol
    rw [hx]
    exact .refl
  | some shape =>
    cases hid : id.member with
    | some name =>
      rw [defaultSymbol_member _ hid hs, defaultSymbol_member _ hid hs]
      exact .refl
    | none =>
      rw [defaultSymbol_shape _ hid hs, defaultSymbol_shape _ hid hs]
      cases shape.kind.element? with
      | none => exact .refl
      | some e => exact (h e.target).bind

theorem Extends.resolve {l l' : ShapeId → Names Symbol} (h : ∀ next, Extends (l next) (l' next)) :
    Extends (p.resolve m l id) (p.resolve m l' id) := by
  unfold Provider.resolve
  refine .after fun t => ?_
  split
  · exact .refl
  · refine .after fun _ => ?_
    exact ((Extends.defaultSymbol h).tryCatch fun e t => Eq.refl _).bind

/-- **A lookup that ends within a bound is the same under the next one.** -/
theorem Extends.lookup : ∀ (fuel : Nat) (id : ShapeId), Extends (p.lookup m fuel id) (p.lookup m (fuel + 1) id) := by
  intro fuel
  induction fuel with
  | zero => exact fun id t ht => absurd (Eq.refl _) (ht id)
  | succ fuel ih =>
    intro id
    rw [Provider.lookup, Provider.lookup]
    refine .after fun t => ?_
    split
    · exact .refl
    · split
      · exact (ih _).bind
      · exact .resolve ih

theorem lookup_of_le {fuel fuel' : Nat} (hle : fuel ≤ fuel') (h : Ended ((p.lookup m fuel id).run t).1) :
    (p.lookup m fuel' id).run t = (p.lookup m fuel id).run t := by
  induction fuel', hle using Nat.le_induction with
  | base => rfl
  | succ k _ ih =>
    rw [← ih] at h ⊢
    exact Extends.lookup k id t h

/-! ### Chains that end -/

/-- An error that cuts off a chain of lookups. -/
inductive Cuts : Error → Prop where
  | endless (id : ShapeId) : Cuts (.invalidModel (.endlessSymbol id))
  | cyclic (id : ShapeId) : Cuts (.invalidModel (.cyclicSymbol id))

theorem not_cuts_of_collision (h : e.isCollision = true) : ¬ Cuts e := by
  rintro ⟨⟩ <;> cases h

theorem Refusal.not_cuts (h : Refusal e) : ¬ Cuts e := by
  cases h <;> rintro ⟨⟩

theorem shapeSymbol_not_cut {P : Table → Prop} (element : Symbol) (kind : Kind) :
    Triple P (Names.ofExcept (p.shapeSymbol m id element kind)) (fun _ _ => True) (fun e _ => ¬ Cuts e) := by
  intro t _
  cases hsym : p.shapeSymbol m id element kind with
  | ok s => trivial
  | error e => exact (shapeSymbol_error hsym).not_cuts

/-- **The lookup of an id with a rank is not cut off**, under a bound above the rank. -/
theorem lookup_of_rank : ∀ {fuel n : Nat} {id : ShapeId}, Rank m id n → n < fuel →
    Triple (fun t => t.Sound p m ∧ Unmarked m n t) (p.lookup m fuel id) (fun _ _ => True) (fun e _ => ¬ Cuts e) := by
  intro fuel
  induction fuel with
  | zero => exact fun _ h => absurd h (Nat.not_lt_zero _)
  | succ fuel ih =>
    intro n id hrank hfuel
    -- what the symbol is made from is looked up under the rest of the bound
    have hrest : ∀ next k, MadeFrom m id next → n = k + 1 →
        Triple (fun t => t.Sound p m ∧ Unmarked m k t) (p.lookup m fuel next) (fun _ _ => True)
          (fun e _ => ¬ Cuts e) := by
      rintro next k hmade rfl
      cases hrank with
      | step hmade' hnext =>
        cases hmade'.unique hmade
        exact ih hnext (by omega)
    have hpositive : ∀ next, MadeFrom m id next → ∃ k, n = k + 1 := by
      intro next hmade
      cases hrank with
      | last hend => exact absurd hmade (hend next)
      | step => exact ⟨_, rfl⟩
    cases hst : standsFor? m id with
    | some member =>
      obtain ⟨k, rfl⟩ := hpositive _ (.standsFor hst)
      unfold lookup
      apply Triple.get_bind
      rintro t ⟨ht, hmarks⟩
      rw [hst]
      split
      · exact fun _ _ => trivial
      refine Triple.bind (Q := fun _ _ => True) ?_ fun s => ?_
      · refine (hrest _ k (.standsFor hst) rfl).pre ?_
        rintro t' rfl
        exact ⟨ht, fun r hr j hj => by have := hmarks r hr j hj; omega⟩
      · apply Triple.get_bind
        intro t _
        split <;> exact fun _ _ => trivial
    | none =>
      refine lookup_of_resolve hst (resolve_of_rank (fun _ => not_cuts_of_collision) hrank ?_)
      refine defaultSymbol_cases p m _ id ?missing ?variant ?plain ?collection
      case missing => exact fun t _ => (Refusal.missing id).not_cuts
      case variant => exact fun name shape members member _ _ _ _ t _ => trivial
      case plain => exact fun shape _ _ _ => shapeSymbol_not_cut _ _
      case collection =>
        intro shape x hid hs he
        obtain ⟨k, rfl⟩ := hpositive _ (.element hid hs he)
        refine Triple.bind (Q := fun _ _ => True) ?_ fun element => shapeSymbol_not_cut element _
        refine (hrest _ k (.element hid hs he) rfl).pre ?_
        exact fun t ht => ⟨ht.1, ht.2 k rfl⟩

/-! ### Chains without an end -/

/-- Each id of the chain is made from the next one. -/
def IsChain (m : Model) (chain : Nat → ShapeId) : Prop := ∀ k, MadeFrom m (chain k) (chain (k + 1))

theorem exists_chain (h : ∀ n, ¬ Rank m id n) : ∃ chain, chain 0 = id ∧ IsChain m chain := by
  have hstep : ∀ x : { x // ∀ n, ¬ Rank m x n }, ∃ y : { y // ∀ n, ¬ Rank m y n }, MadeFrom m x.1 y.1 := by
    rintro ⟨x, hx⟩
    by_contra hnone
    push Not at hnone
    refine hx 0 (.last fun y hmade => ?_)
    exact hnone ⟨y, fun n hn => hx (n + 1) (.step hmade hn)⟩ hmade
  choose next hnext using hstep
  refine ⟨fun k => (next^[k] ⟨id, h⟩).1, rfl, fun k => ?_⟩
  simp only [Function.iterate_succ_apply']
  exact hnext _

namespace IsChain

variable {chain : Nat → ShapeId} {i j k : Nat}

theorem unranked (hc : IsChain m chain) (k n : Nat) : ¬ Rank m (chain k) n := by
  induction n generalizing k with
  | zero =>
    rintro ⟨hend⟩
    exact hend _ (hc k)
  | succ n ih =>
    rintro (_ | ⟨hmade, hnext⟩)
    cases hmade.unique (hc k)
    exact ih (k + 1) hnext

/-- Nothing on the chain has a symbol, so nothing on it is remembered. -/
theorem not_cached (hc : IsChain m chain) {t : Table} (ht : t.Sound p m) (k : Nat) : t.cached? (chain k) = none := by
  cases hs : t.cached? (chain k) with
  | none => rfl
  | some s =>
    obtain ⟨n, hn⟩ := (ht.faithful _ s hs).rank
    exact absurd hn (hc.unranked k n)

theorem shift (hc : IsChain m chain) (h : chain i = chain j) (r : Nat) : chain (i + r) = chain (j + r) := by
  induction r with
  | zero => exact h
  | succ r ih =>
    have hi := hc (i + r)
    rw [ih] at hi
    exact hi.unique (hc (j + r))

theorem recurs (hc : IsChain m chain) (hij : i < j) (h : chain i = chain j) (bound : Nat) :
    ∃ k, bound ≤ k ∧ chain k = chain j := by
  induction bound with
  | zero => exact ⟨j, Nat.zero_le j, rfl⟩
  | succ bound ih =>
    obtain ⟨k, hk, heq⟩ := ih
    refine ⟨k + (j - i), by omega, ?_⟩
    rw [hc.shift (heq.trans h.symm) (j - i), Nat.add_sub_cancel' hij.le]

/-- **A chain repeats itself** within as many steps as there are shapes and members. -/
theorem repeats (hc : IsChain m chain) : ∃ i j, i < j ∧ j ≤ (places m).length ∧ chain i = chain j := by
  by_contra hrep
  push Not at hrep
  have hnd : ((List.range ((places m).length + 1)).map chain).Nodup := by
    apply List.Nodup.map_on ?_ List.nodup_range
    intro i hi j hj heq
    rw [List.mem_range] at hi hj
    rcases Nat.lt_trichotomy i j with hlt | rfl | hlt
    · exact absurd heq (hrep i j hlt (by omega))
    · rfl
    · exact absurd heq.symm (hrep j i hlt (by omega))
  have hsub : (List.range ((places m).length + 1)).map chain ⊆ places m := by
    intro x hx
    obtain ⟨i, -, rfl⟩ := List.mem_map.1 hx
    exact (hc i).mem_places
  have hlen := (hnd.subperm hsub).length_le
  rw [List.length_map, List.length_range] at hlen
  omega

theorem leads (hc : IsChain m chain) (hij : i ≤ j) : ReflTransGen (MadeFrom m) (chain i) (chain j) := by
  induction j, hij using Nat.le_induction with
  | base => exact .refl
  | succ k _ ih => exact ih.tail (hc k)

theorem returns (hc : IsChain m chain) (hij : i < j) (h : chain i = chain j) :
    TransGen (MadeFrom m) (chain j) (chain j) := by
  have hfirst := hc i
  rw [h] at hfirst
  exact .head' hfirst (hc.leads hij)

/-- Whatever its first id leads to is on the chain. -/
theorem exists_eq (hc : IsChain m chain) {x : ShapeId} (h : ReflTransGen (MadeFrom m) (chain 0) x) :
    ∃ k, chain k = x := by
  induction h with
  | refl => exact ⟨0, rfl⟩
  | tail _ hmade ih =>
    obtain ⟨k, rfl⟩ := ih
    exact ⟨k + 1, (hc k).unique hmade⟩

end IsChain

/-! ### Circles -/

/-- A member that stands for its target. -/
def Stands (m : Model) (id next : ShapeId) : Prop := ∃ member, standsFor? m id = some member ∧ member.target = next

/-- The chain of lookups from the id comes to a circle of members that stand for one another. -/
def Endless (m : Model) (id : ShapeId) : Prop := ∃ x, ReflTransGen (MadeFrom m) id x ∧ TransGen (Stands m) x x

theorem Stands.madeFrom (h : Stands m id next) : MadeFrom m id next := by
  obtain ⟨member, hst, rfl⟩ := h
  exact .standsFor hst

theorem Stands.member (h : Stands m id next) : id.member ≠ none := by
  obtain ⟨member, hst, -⟩ := h
  intro hid
  rw [standsFor?_of_no_member hid] at hst
  cases hst

theorem MadeFrom.stands (h : MadeFrom m id next) (hid : id.member ≠ none) : Stands m id next := by
  cases h with
  | standsFor hst => exact ⟨_, hst, rfl⟩
  | element hnone => exact absurd hnone hid

theorem circle_step (h : TransGen (Stands m) id id) (hmade : MadeFrom m id next) : TransGen (Stands m) next next := by
  obtain ⟨y, hy, hback⟩ := TransGen.head'_iff.1 h
  cases hy.madeFrom.unique hmade
  exact .tail' hback hy

theorem Rank.not_circular (h : Rank m id n) {x : ShapeId} (hreach : ReflTransGen (MadeFrom m) id x) :
    ¬ TransGen (MadeFrom m) x x := by
  intro hcircle
  induction h with
  | last hend =>
    rcases hreach.cases_head with rfl | ⟨y, hmade, -⟩
    · obtain ⟨y, hy, -⟩ := TransGen.head'_iff.1 hcircle
      exact hend y hy
    · exact hend y hmade
  | step hmade _ ih =>
    rcases hreach.cases_head with rfl | ⟨y, hmade', hreach⟩
    · obtain ⟨y, hy, hback⟩ := TransGen.head'_iff.1 hcircle
      cases hy.unique hmade
      exact ih hback
    · cases hmade'.unique hmade
      exact ih hreach

theorem Rank.not_endless (h : Rank m id n) : ¬ Endless m id := by
  rintro ⟨x, hreach, hcircle⟩
  exact h.not_circular hreach (TransGen.mono (fun _ _ h => Stands.madeFrom h) x x hcircle)

/-- The marks that a lookup has left on its way along the chain. -/
structure Passed (p : Provider) (m : Model) (chain : Nat → ShapeId) (n : Nat) (t : Table) : Prop where
  sound : t.Sound p m
  marks : ∀ r ∈ t.resolving, ∃ i < n, r = chain i

theorem Passed.step (h : Passed p m chain n t) : Passed p m chain (n + 1) t := by
  refine ⟨h.sound, fun r hr => ?_⟩
  obtain ⟨i, hi, rfl⟩ := h.marks r hr
  exact ⟨i, by omega, rfl⟩

theorem Passed.mark (h : Passed p m chain n t) :
    Passed p m chain (n + 1) { t with resolving := t.resolving ++ [chain n] } := by
  refine ⟨h.sound.resolving _, fun r hr => ?_⟩
  rcases List.mem_append.1 hr with hr | hr
  · exact h.step.marks r hr
  · exact ⟨n, Nat.lt_succ_self n, List.mem_singleton.1 hr⟩

/-- **A chain that comes back to a collection is cut**, at the latest there. -/
theorem lookup_cut (hc : IsChain m chain) {first second : Nat} (hlt : first < second) (heq : chain first = chain second)
    (hcollection : (chain first).member = none) : ∀ {fuel n : Nat},
    n ≤ second → second < n + fuel →
    Triple (fun t => Passed p m chain n t ∧ (first < n → chain first ∈ t.resolving)) (p.lookup m fuel (chain n))
      (fun _ _ => False)
      (fun e _ => ∃ i j, i < j ∧ chain i = chain j ∧ (chain j).member = none ∧
        e = .invalidModel (.cyclicSymbol (chain j))) := by
  intro fuel
  induction fuel with
  | zero =>
    intro n hn hfuel
    omega
  | succ fuel ih =>
    intro n hn hfuel
    refine lookup_fails (E := fun e => ∃ i j, i < j ∧ chain i = chain j ∧ (chain j).member = none ∧
      e = .invalidModel (.cyclicSymbol (chain j))) (hc n) ?_ ?_ ?_ ?_
    · exact fun t ht => hc.not_cached ht.1.sound n
    · intro hid t ht hin
      obtain ⟨i, hi, hni⟩ := ht.1.marks _ hin
      exact ⟨i, n, hi, hni.symm, hid, rfl⟩
    · -- a member is neither the collection nor its second coming
      intro hmember
      have hfirst : n ≠ first := fun h => hmember (h ▸ hcollection)
      have hsecond : n ≠ second := fun h => hmember (h ▸ heq ▸ hcollection)
      refine (ih (n := n + 1) (by omega) (by omega)).pre ?_
      exact fun t ht => ⟨ht.1.step, fun h => ht.2 (by omega)⟩
    · intro _
      by_cases hn' : n = second
      · -- the mark is still there
        rintro _ ⟨t, ht, hnew, -⟩
        rw [hn', ← heq] at hnew
        exact absurd (ht.2 (by omega)) hnew
      · refine (ih (n := n + 1) (by omega) (by omega)).pre ?_
        rintro _ ⟨t, ht, -, rfl⟩
        refine ⟨ht.1.mark, fun h => ?_⟩
        rcases Nat.lt_succ_iff_lt_or_eq.1 h with h | rfl
        · exact List.mem_append_left _ (ht.2 h)
        · exact List.mem_append_right _ (List.mem_singleton.2 rfl)

/-- **A chain that goes round among members is never cut**: whatever the bound, the lookup runs into it. -/
theorem lookup_endless (hc : IsChain m chain) {start : Nat} (hmembers : ∀ k, start ≤ k → (chain k).member ≠ none) :
    ∀ (fuel n : Nat),
    Triple (Passed p m chain n) (p.lookup m fuel (chain n)) (fun _ _ => False)
      (fun e _ => ∃ x, e = .invalidModel (.endlessSymbol x)) := by
  intro fuel
  induction fuel with
  | zero => exact fun n t _ => ⟨chain n, rfl⟩
  | succ fuel ih =>
    intro n
    refine lookup_fails (E := fun e => ∃ x, e = .invalidModel (.endlessSymbol x)) (hc n) ?_ ?_ ?_ ?_
    · exact fun t ht => hc.not_cached ht.sound n
    · -- a marked collection would come again where there are only members
      intro hcollection t ht hin
      obtain ⟨i, hi, hni⟩ := ht.marks _ hin
      obtain ⟨k, hk, heq⟩ := hc.recurs hi hni.symm start
      exact absurd (heq ▸ hcollection) (hmembers k hk)
    · exact fun _ => (ih (n + 1)).pre fun t ht => ht.step
    · intro _
      refine (ih (n + 1)).pre ?_
      rintro _ ⟨t, ht, -, rfl⟩
      exact ht.mark

/-- A chain without an end has a collection that comes back within the bound on the nesting, or leads to a circle of
members. -/
theorem IsChain.circle (hc : IsChain m chain) :
    (∃ i j, i < j ∧ j < depth m ∧ chain i = chain j ∧ (chain i).member = none) ∨ Endless m (chain 0) := by
  obtain ⟨i, j, hij, hj, heq⟩ := hc.repeats
  rw [length_places] at hj
  by_cases hcollection : ∃ k, i ≤ k ∧ k < j ∧ (chain k).member = none
  · -- the first round has `j` steps at most, and so has the second
    obtain ⟨k, hik, hkj, hk⟩ := hcollection
    refine .inl ⟨k, k + (j - i), by omega, ?_, ?_, hk⟩
    · unfold depth
      omega
    · have hround := hc.shift heq (k - i)
      rwa [show i + (k - i) = k by omega, show j + (k - i) = k + (j - i) by omega] at hround
  · push Not at hcollection
    have hround : ∀ k, i < k → k ≤ j → TransGen (Stands m) (chain i) (chain k) := by
      intro k hik
      induction k, hik using Nat.le_induction with
      | base => exact fun h => .single ((hc i).stands (hcollection i le_rfl h))
      | succ k hik ih => exact fun h => (ih (by omega)).tail ((hc k).stands (hcollection k (by omega) h))
    refine .inr ⟨chain i, hc.leads (Nat.zero_le i), ?_⟩
    have hcircle := hround j hij le_rfl
    rwa [← heq] at hcircle

/-- From some place on a chain that leads to a circle of members has only members. -/
theorem Endless.members (hc : IsChain m chain) (h : Endless m (chain 0)) :
    ∃ start, ∀ k, start ≤ k → (chain k).member ≠ none := by
  obtain ⟨x, hreach, hcircle⟩ := h
  obtain ⟨start, rfl⟩ := hc.exists_eq hreach
  have hcircles : ∀ k, start ≤ k → TransGen (Stands m) (chain k) (chain k) := by
    intro k hk
    induction k, hk using Nat.le_induction with
    | base => exact hcircle
    | succ k _ ih => exact circle_step ih (hc k)
  refine ⟨start, fun k hk => ?_⟩
  obtain ⟨y, hy, -⟩ := TransGen.head'_iff.1 (hcircles k hk)
  exact hy.member

/-! ### Lookups from an idle table -/

variable {t : Table}

theorem Idle.passed (ht : p.Idle m t) (chain : Nat → ShapeId) : Passed p m chain 0 t := by
  refine ⟨ht.sound, fun r hr => ?_⟩
  rw [ht.unmarked] at hr
  cases hr

theorem Idle.symbol_of_rank (ht : p.Idle m t) (hrank : Rank m id n) (h : ((p.symbol m id).run t).1 = .error e) :
    ¬ Cuts e :=
  (lookup_of_rank hrank hrank.lt_depth).of_run_error ⟨ht.sound, ht.unmarked_rank n⟩ h

/-- The lookup of an id whose chain neither ends nor goes round among members. -/
theorem Idle.symbol_cut_at (ht : p.Idle m t) (hrank : ∀ n, ¬ Rank m id n) (hend : ¬ Endless m id) :
    ∃ x, ((p.symbol m id).run t).1 = .error (.invalidModel (.cyclicSymbol x)) ∧ x.member = none ∧
      ReflTransGen (MadeFrom m) id x ∧ TransGen (MadeFrom m) x x := by
  obtain ⟨chain, rfl, hc⟩ := exists_chain hrank
  obtain ⟨first, second, hlt, hdepth, heq, hcollection⟩ := hc.circle.resolve_right hend
  have hwithin : second < 0 + depth m := by omega
  have hcut := lookup_cut (p := p) hc hlt heq hcollection (Nat.zero_le second) hwithin
  have hstart : Passed p m chain 0 t ∧ (first < 0 → chain first ∈ t.resolving) :=
    ⟨ht.passed chain, fun h => absurd h (Nat.not_lt_zero _)⟩
  cases hr : ((p.symbol m (chain 0)).run t).1 with
  | ok s => exact (hcut.of_run_ok hstart hr).elim
  | error e =>
    obtain ⟨i, j, hij, hchain, hj, rfl⟩ := hcut.of_run_error hstart hr
    exact ⟨chain j, rfl, hj, hc.leads (Nat.zero_le j), hc.returns hij hchain⟩

theorem Idle.symbol_cut (ht : p.Idle m t) (hrank : ∀ n, ¬ Rank m id n) (hend : ¬ Endless m id) :
    ∃ x, ((p.symbol m id).run t).1 = .error (.invalidModel (.cyclicSymbol x)) ∧
      ReflTransGen (MadeFrom m) id x ∧ TransGen (MadeFrom m) x x := by
  obtain ⟨x, hx, -, hreach⟩ := ht.symbol_cut_at hrank hend
  exact ⟨x, hx, hreach⟩

theorem Idle.lookup_endless (ht : p.Idle m t) (h : Endless m id) (fuel : Nat) :
    ∃ x, ((p.lookup m fuel id).run t).1 = .error (.invalidModel (.endlessSymbol x)) := by
  obtain ⟨chain, rfl, hc⟩ := exists_chain fun n hn => hn.not_endless h
  obtain ⟨start, hmembers⟩ := h.members hc
  have hl := Provider.lookup_endless (p := p) hc hmembers fuel 0
  cases hr : ((p.lookup m fuel (chain 0)).run t).1 with
  | ok s => exact (hl.of_run_ok (ht.passed chain) hr).elim
  | error e =>
    obtain ⟨x, rfl⟩ := hl.of_run_error (ht.passed chain) hr
    exact ⟨x, rfl⟩

theorem Idle.symbol_ended (ht : p.Idle m t) (h : ¬ Endless m id) : Ended ((p.symbol m id).run t).1 := by
  intro x hx
  by_cases hrank : ∃ n, Rank m id n
  · obtain ⟨n, hn⟩ := hrank
    exact ht.symbol_of_rank hn hx (.endless x)
  · push Not at hrank
    obtain ⟨y, hy, -⟩ := ht.symbol_cut hrank h
    rw [hx] at hy
    cases hy

theorem Idle.lookup_eq_symbol (ht : p.Idle m t) {fuel : Nat} (h : Ended ((p.lookup m fuel id).run t).1) :
    (p.lookup m fuel id).run t = (p.symbol m id).run t := by
  rcases Nat.le_total fuel (depth m) with hle | hle
  · exact (lookup_of_le hle h).symm
  · have hend : ¬ Endless m id := by
      intro hendless
      obtain ⟨x, hx⟩ := ht.lookup_endless hendless fuel
      exact h x hx
    exact lookup_of_le hle (ht.symbol_ended hend)

/-- The ids that conversion passes are different element targets, apart from the first, so a bound above their number
does not matter. -/
theorem convertsWithin_bound {ids : List ShapeId} (hids : m.elementTargets ⊆ ids) : ∀ (fuel fuel' : Nat)
    (seen : List ShapeId) (target : ShapeId), seen.Nodup → seen ⊆ ids → target ∈ ids → ids.length < seen.length + fuel →
    ids.length < seen.length + fuel' →
    Naming.convertsWithin m fuel seen target = Naming.convertsWithin m fuel' seen target := by
  intro fuel
  induction fuel with
  | zero =>
    intro fuel' seen target hnd hsub _ hfuel
    -- the ids that were passed are different, so they are not more than there are
    have := (hnd.subperm hsub).length_le
    omega
  | succ fuel ih =>
    intro fuel' seen target hnd hsub htarget hfuel hfuel'
    cases fuel' with
    | zero =>
      have := (hnd.subperm hsub).length_le
      omega
    | succ fuel' =>
      rw [Naming.convertsWithin, Naming.convertsWithin]
      split
      · rfl
      rename_i hnew
      rw [List.contains_iff_mem] at hnew
      have hnext : ∀ shape e, m.get? target = some shape → shape.kind.element? = some e →
          Naming.convertsWithin m fuel (target :: seen) e.target =
            Naming.convertsWithin m fuel' (target :: seen) e.target := by
        intro shape e hshape he
        have hmem : e.target ∈ m.elementTargets := by
          refine Model.elementTarget?_mem (a := target) ?_
          unfold Model.elementTarget?
          rw [hshape, Option.bind_some, he]
          rfl
        refine ih fuel' _ _ (List.nodup_cons.2 ⟨hnew, hnd⟩) (List.cons_subset.2 ⟨htarget, hsub⟩) (hids hmem) ?_ ?_
        · rw [List.length_cons]
          omega
        · rw [List.length_cons]
          omega
      cases hx : m.expect target with
      | error e => rfl
      | ok shape =>
        have hshape := Model.expect_eq_ok.1 hx
        obtain ⟨shapeId, kind, traits⟩ := shape
        cases kind with
        | list e | set e => exact hnext _ e hshape rfl
        | map k v => exact hnext _ v hshape rfl
        | _ => rfl

theorem needsConversion_bound (m : Model) (target : ShapeId) {fuel : Nat} (hfuel : m.shapes.length + 2 ≤ fuel) :
    Naming.convertsWithin m fuel [] target = Naming.needsConversion m target := by
  have hlength : m.elementTargets.length ≤ m.shapes.length := List.length_filterMap_le _ _
  refine convertsWithin_bound (List.subset_cons_self target m.elementTargets) _ _ _ _ List.nodup_nil
    (List.nil_subset _) List.mem_cons_self ?_ ?_
  · simp only [List.length_cons, List.length_nil]
    omega
  · simp only [List.length_cons, List.length_nil]
    omega

/-- **Which lookups end.** After any lookups before it:
1. the lookup of an id ends under some bound on the nesting if and only if its chain does not come to a circle of
   members that stand for one another;
2. the bound that is set does not matter: wherever a lookup ends it gives the same symbol or error and the same table;
3. a chain is cut with an error if and only if it neither ends nor comes to such a circle; the error names an id of
   the chain that leads back to itself;
4. nor does the bound on the way through collections to their values matter.
So a chain that goes round through a collection is cut, and the only chains that go on for ever are of members. -/
theorem lookup_ends_iff (p : Provider) (m : Model) (before : List ShapeId) (id : ShapeId) :
    ((∃ fuel, Ended ((p.lookup m fuel id).run (p.tableAfter m before)).1) ↔ ¬ Endless m id) ∧
    (∀ fuel, Ended ((p.lookup m fuel id).run (p.tableAfter m before)).1 →
      (p.lookup m fuel id).run (p.tableAfter m before) = (p.symbol m id).run (p.tableAfter m before)) ∧
    ((∃ x, ((p.symbol m id).run (p.tableAfter m before)).1 = .error (.invalidModel (.cyclicSymbol x)) ∧
        ReflTransGen (MadeFrom m) id x ∧ TransGen (MadeFrom m) x x) ↔ (∀ n, ¬ Rank m id n) ∧ ¬ Endless m id) ∧
    ∀ target fuel, m.shapes.length + 2 ≤ fuel →
      Naming.convertsWithin m fuel [] target = Naming.needsConversion m target := by
  have ht := tableAfter_idle p m before
  refine ⟨⟨?_, ?_⟩, fun fuel h => ht.lookup_eq_symbol h, ⟨?_, ?_⟩, fun target fuel h => needsConversion_bound m target h⟩
  · rintro ⟨fuel, hended⟩ hendless
    obtain ⟨x, hx⟩ := ht.lookup_endless hendless fuel
    exact hended x hx
  · exact fun h => ⟨depth m, ht.symbol_ended h⟩
  · rintro ⟨x, hx, -⟩
    refine ⟨fun n hn => ht.symbol_of_rank hn hx (.cyclic x), fun hendless => ?_⟩
    obtain ⟨y, hy⟩ := ht.lookup_endless hendless (depth m)
    cases hx.symm.trans hy
  · exact fun h => ht.symbol_cut h.1 h.2

/-- A document of a structure whose member targets itself. -/
def selfMemberText : String :=
  "\x7b\"shapes\": \x7b\"ex#S\": \x7b\"type\": \"structure\", \"members\": \x7b\"m\": \x7b\"target\": \"ex#S$m\"\x7d\x7d\x7d\x7d\x7d"

def selfMember : ShapeId := { ns := "ex", name := "S", member := some "m" }

def selfMemberModel : Model where
  shapes := [{ id := selfMember.root, kind := .struct [{ id := selfMember, target := selfMember }] }]
  distinct := List.nodup_singleton _

/-- The document is accepted, and under no bound does the lookup of the member end. -/
theorem selfMember_endless : Model.ofDocument selfMemberText = .ok selfMemberModel ∧
    Endless selfMemberModel selfMember ∧ ∀ (p : Provider) (before : List ShapeId) (fuel : Nat),
      ¬ Ended ((p.lookup selfMemberModel fuel selfMember).run (p.tableAfter selfMemberModel before)).1 := by
  have hload : Model.ofDocument selfMemberText = .ok selfMemberModel := by cbv
  have hendless : Endless selfMemberModel selfMember := ⟨selfMember, .refl, .single ⟨_, rfl, rfl⟩⟩
  refine ⟨hload, hendless, fun p before fuel hended => ?_⟩
  exact (lookup_ends_iff p selfMemberModel before selfMember).1.1 ⟨fuel, hended⟩ hendless

end ClientGen.Provider
