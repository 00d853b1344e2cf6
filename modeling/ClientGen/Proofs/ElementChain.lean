import ClientGen.Context
import ClientGen.Proofs.WalkSet
import Mathlib.Data.List.Nodup
import Mathlib.Data.List.Perm.Subperm
import Mathlib.Logic.Relation

/-!
# The chain of element targets

From a list or set a step leads to the target of its member, from a map to the target of its value
(`ElementStep`). From each id at most one step leads on, and only declared shapes are collections. So
the ids on a chain are at most as many as the declared shapes, and one more (`elementAt_bound`), and
`Model.elementChain` finds all of them (`mem_elementChain_iff`).
-/

namespace ClientGen

open Relation

/-- A step from a collection to its elements. -/
inductive ElementStep (m : Model) : ShapeId → ShapeId → Prop where
  | list {id : ShapeId} {s : Shape} {e : Member} :
      m.get? id = some s → s.kind = .list e → ElementStep m id e.target
  | set {id : ShapeId} {s : Shape} {e : Member} :
      m.get? id = some s → s.kind = .set e → ElementStep m id e.target
  | map {id : ShapeId} {s : Shape} {k v : Member} :
      m.get? id = some s → s.kind = .map k v → ElementStep m id v.target

theorem ElementStep.mem_references {m : Model} {a b : ShapeId}
    (h : ElementStep m a b) : ∃ s, m.get? a = some s ∧ b ∈ s.references := by
  cases h with
  | list hs hk | set hs hk | map hs hk => exact ⟨_, hs, by simp [Shape.references, hk, Kind.references, Kind.members]⟩

namespace Model

/-- Where the step from an id leads, if there is one. -/
def elementTarget? (m : Model) (id : ShapeId) : Option ShapeId :=
  ((m.get? id).bind fun s => s.kind.element?).map (·.target)

variable {m : Model} {a b t u : ShapeId}

theorem elementTarget?_eq_some : m.elementTarget? a = some b ↔ ElementStep m a b := by
  unfold elementTarget?
  constructor
  · intro h
    obtain ⟨e, he, rfl⟩ := Option.map_eq_some_iff.1 h
    obtain ⟨s, hs, hk⟩ := Option.bind_eq_some_iff.1 he
    cases hkind : s.kind <;> rw [hkind] at hk <;> cases hk
    · exact .list hs hkind
    · exact .set hs hkind
    · exact .map hs hkind
  · intro h
    cases h with
    | list hs hk | set hs hk | map hs hk => rw [hs, Option.bind_some, hk]; rfl

/-- The id after `k` steps. -/
def elementAt (m : Model) : Nat → ShapeId → Option ShapeId
  | 0, t => some t
  | k + 1, t => (m.elementTarget? t).bind (m.elementAt k)

theorem elementAt_add (i j : Nat) (t : ShapeId) :
    m.elementAt (i + j) t = (m.elementAt i t).bind (m.elementAt j) := by
  induction i generalizing t with
  | zero => simp [elementAt]
  | succ i ih =>
    rw [Nat.succ_add, elementAt, elementAt]
    cases m.elementTarget? t with
    | none => rfl
    | some b => exact ih b

theorem elementAt_succ (k : Nat) (t : ShapeId) :
    m.elementAt (k + 1) t = (m.elementAt k t).bind m.elementTarget? := by
  rw [elementAt_add]
  congr 1
  funext b
  rw [elementAt]
  cases m.elementTarget? b <;> rfl

theorem reach_iff_elementAt :
    ReflTransGen (ElementStep m) t u ↔ ∃ k, m.elementAt k t = some u := by
  constructor
  · intro h
    induction h with
    | refl => exact ⟨0, rfl⟩
    | tail _ hstep ih =>
      obtain ⟨k, hk⟩ := ih
      exact ⟨k + 1, by rw [elementAt_succ, hk, Option.bind_some, elementTarget?_eq_some.2 hstep]⟩
  · rintro ⟨k, hk⟩
    induction k generalizing u with
    | zero => cases hk; exact .refl
    | succ k ih =>
      rw [elementAt_succ] at hk
      obtain ⟨b, hb, hu⟩ := Option.bind_eq_some_iff.1 hk
      exact (ih hb).tail (elementTarget?_eq_some.1 hu)

/-- The element targets of the declared shapes. -/
def elementTargets (m : Model) : List ShapeId :=
  m.shapes.filterMap fun s => s.kind.element?.map (·.target)

theorem prelude_element? {id : ShapeId} {s : Shape} (h : Prelude.shape? id = some s) :
    s.kind.element? = none := by
  unfold Prelude.shape? at h
  split at h
  · cases h
    rfl
  · split at h
    · obtain ⟨e, -, rfl⟩ := Option.map_eq_some_iff.1 h
      rfl
    · cases h

/-- No shape of the prelude is a collection, so every step leads from a declared shape. -/
theorem elementTarget?_mem (h : m.elementTarget? a = some b) : b ∈ m.elementTargets := by
  obtain ⟨e, he, rfl⟩ := Option.map_eq_some_iff.1 h
  obtain ⟨s, hs, hk⟩ := Option.bind_eq_some_iff.1 he
  unfold get? at hs
  split at hs
  · rename_i hd
    cases hs
    exact List.mem_filterMap.2 ⟨s, mem_of_declared? hd, by rw [hk]; rfl⟩
  · rw [prelude_element? hs] at hk
    cases hk

/-- A chain that reaches an id reaches it within as many steps as there are declared shapes. -/
theorem elementAt_bound {k : Nat} (h : m.elementAt k t = some u) :
    ∃ j ≤ m.shapes.length, m.elementAt j t = some u := by
  -- the least number of steps: no id is passed twice on the way
  induction k using Nat.strongRecOn with
  | _ k ih =>
    by_cases hrep : ∃ i j, i < j ∧ j ≤ k ∧ m.elementAt i t = m.elementAt j t
    · obtain ⟨i, j, hij, hjk, heq⟩ := hrep
      apply ih (i + (k - j)) (by omega)
      rw [elementAt_add, heq, ← elementAt_add, Nat.add_sub_cancel' hjk]
      exact h
    · push Not at hrep
      refine ⟨k, ?_, h⟩
      have hnd : ((List.range k).map fun i => m.elementAt (i + 1) t).Nodup := by
        apply List.Nodup.map_on ?_ List.nodup_range
        intro i hi j hj heq
        rw [List.mem_range] at hi hj
        rcases Nat.lt_trichotomy i j with hlt | rfl | hlt
        · exact absurd heq (hrep (i + 1) (j + 1) (by omega) (by omega))
        · rfl
        · exact absurd heq.symm (hrep (j + 1) (i + 1) (by omega) (by omega))
      have hsub : ((List.range k).map fun i => m.elementAt (i + 1) t) ⊆ m.elementTargets.map some := by
        intro x hx
        obtain ⟨i, hi, rfl⟩ := List.mem_map.1 hx
        rw [List.mem_range] at hi
        -- the chain goes on to step `k`, so it has not ended before
        have hsome : m.elementAt k t = (m.elementAt (i + 1) t).bind (m.elementAt (k - (i + 1))) := by
          rw [← elementAt_add, Nat.add_sub_cancel' (by omega)]
        rw [h] at hsome
        obtain ⟨b, hb, -⟩ := Option.bind_eq_some_iff.1 hsome.symm
        rw [hb]
        rw [elementAt_succ] at hb
        obtain ⟨c, -, hc⟩ := Option.bind_eq_some_iff.1 hb
        exact List.mem_map_of_mem (elementTarget?_mem hc)
      have hlen := (hnd.subperm hsub).length_le
      have hle : m.elementTargets.length ≤ m.shapes.length := List.length_filterMap_le _ _
      simp only [List.length_map, List.length_range] at hlen
      omega

theorem elementChain_succ (n : Nat) (t : ShapeId) :
    m.elementChain (n + 1) t = t :: ((m.elementTarget? t).map (m.elementChain n)).getD [] := by
  rw [elementChain, elementTarget?]
  cases (m.get? t).bind fun s => s.kind.element? <;> rfl

theorem mem_elementChain {n : Nat} : u ∈ m.elementChain n t ↔ ∃ k < n, m.elementAt k t = some u := by
  induction n generalizing t with
  | zero => simp [elementChain]
  | succ n ih =>
    have hnext : u ∈ ((m.elementTarget? t).map (m.elementChain n)).getD [] ↔
        ∃ k < n, m.elementAt (k + 1) t = some u := by
      simp only [elementAt]
      cases m.elementTarget? t with
      | none => simp
      | some b => exact ih
    rw [elementChain_succ, List.mem_cons, hnext]
    constructor
    · rintro (rfl | ⟨k, hk, h⟩)
      · exact ⟨0, by omega, rfl⟩
      · exact ⟨k + 1, by omega, h⟩
    · rintro ⟨k, hk, h⟩
      cases k with
      | zero => exact .inl (Option.some.inj h).symm
      | succ k => exact .inr ⟨k, by omega, h⟩

/-- **The chain is complete** as soon as it may be longer than the list of shapes. -/
theorem mem_elementChain_iff {n : Nat} (hn : m.shapes.length < n) :
    u ∈ m.elementChain n t ↔ ReflTransGen (ElementStep m) t u := by
  rw [mem_elementChain, reach_iff_elementAt]
  constructor
  · rintro ⟨k, -, h⟩
    exact ⟨k, h⟩
  · rintro ⟨k, h⟩
    obtain ⟨j, hj, h⟩ := elementAt_bound h
    exact ⟨j, by omega, h⟩

theorem length_elementChain (n : Nat) (t : ShapeId) : (m.elementChain n t).length ≤ n := by
  induction n generalizing t with
  | zero => simp [elementChain]
  | succ n ih =>
    rw [elementChain_succ, List.length_cons]
    cases m.elementTarget? t with
    | none => simp
    | some b => exact Nat.succ_le_succ (ih b)

end Model

end ClientGen
