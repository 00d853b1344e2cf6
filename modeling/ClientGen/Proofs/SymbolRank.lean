import ClientGen.Proofs.ElementChain
import ClientGen.Proofs.SymbolTable

/-!
# How deep lookups nest

The symbol of a member is made from that of its target, the symbol of a collection from that of its
elements, and no other symbol is made from one before it. So the ids that a lookup passes form a chain.
`Rank m id n` says that the chain from `id` ends, after `n` steps.

* `Denotes.rank`: an id with a symbol has a rank, so no chain of lookups comes back to it.
* `Rank.lt_depth`: the ids of a chain that ends are all different, so the bound on the nesting of lookups
  is never the reason that one fails.
-/

namespace ClientGen.Provider

variable {p : Provider} {m : Model} {id next : ShapeId} {n k : Nat}

/-- The chain of symbols that the symbol of an id is made from ends after so many steps. -/
inductive Rank (m : Model) : ShapeId → Nat → Prop where
  | last {id : ShapeId} : (∀ next, ¬ MadeFrom m id next) → Rank m id 0
  | step {id next : ShapeId} {n : Nat} : MadeFrom m id next → Rank m next n → Rank m id (n + 1)

theorem Rank.unique (h : Rank m id n) (h' : Rank m id k) : n = k := by
  induction h generalizing k with
  | last hend =>
    cases h' with
    | last => rfl
    | step hmade => exact absurd hmade (hend _)
  | step hmade _ ih =>
    cases h' with
    | last hend => exact absurd hmade (hend _)
    | step hmade' hrank =>
      cases hmade.unique hmade'
      rw [ih hrank]

/-- **An id with a symbol has a rank.** -/
theorem Denotes.rank {s : Symbol} (h : p.Denotes m id s) : ∃ n, Rank m id n := by
  induction h with
  | standsFor hst _ ih =>
    obtain ⟨n, hn⟩ := ih
    exact ⟨n + 1, .step (.standsFor hst) hn⟩
  | variant hid hs hk =>
    refine ⟨0, .last ?_⟩
    rintro next (hst | ⟨hid', -⟩)
    · rw [standsFor?_of_union hs hk] at hst; cases hst
    · rw [hid] at hid'; cases hid'
  | plain hid hs he =>
    refine ⟨0, .last ?_⟩
    rintro next (hst | ⟨-, hs', he'⟩)
    · rw [standsFor?_of_no_member hid] at hst; cases hst
    · rw [hs] at hs'
      cases hs'
      rw [he] at he'
      cases he'
  | collection hid hs he _ _ ih =>
    obtain ⟨n, hn⟩ := ih
    exact ⟨n + 1, .step (.element hid hs he) hn⟩

/-- The ids of the declared shapes and of their members. -/
def places (m : Model) : List ShapeId :=
  m.shapes.map Shape.id ++ m.shapes.flatMap fun s => s.members.map fun x => s.id.withMember x.name

theorem length_places (m : Model) :
    (places m).length = m.shapes.length + (m.shapes.flatMap Shape.members).length := by
  simp [places, List.length_flatMap]

theorem prelude_members {id : ShapeId} {s : Shape} (h : Prelude.shape? id = some s) : s.members = [] := by
  unfold Prelude.shape? at h
  split at h
  · cases h
    rfl
  · split at h
    · obtain ⟨e, -, rfl⟩ := Option.map_eq_some_iff.1 h
      rfl
    · cases h

theorem declared_or_prelude {s : Shape} (h : m.get? id = some s) :
    s ∈ m.shapes ∨ Prelude.shape? id.root = some s := by
  unfold Model.get? at h
  split at h
  · rename_i hd
    cases h
    exact .inl (Model.mem_of_declared? hd)
  · exact .inr h

/-- Symbols of prelude shapes are not made from others, so what has a step is declared. -/
theorem MadeFrom.mem_places (h : MadeFrom m id next) : id ∈ places m := by
  cases h with
  | standsFor hst =>
    obtain ⟨name, s, hid, hs, hm⟩ := standsFor?_eq_some hst
    have hmem := List.mem_of_find?_eq_some hm
    have hname := List.find?_some hm
    rcases declared_or_prelude hs with hs' | hs'
    · refine List.mem_append_right _ (List.mem_flatMap.2 ⟨s, hs', List.mem_map.2 ⟨_, hmem, ?_⟩⟩)
      rw [eq_of_beq hname, (Model.get?_id hs).1]
      cases id
      cases hid
      rfl
    · rw [prelude_members hs'] at hmem
      cases hmem
  | element hid hs he =>
    rcases declared_or_prelude hs with hs' | hs'
    · refine List.mem_append_left _ (List.mem_map.2 ⟨_, hs', ?_⟩)
      rw [(Model.get?_id hs).1]
      cases id
      cases hid
      rfl
    · rw [Model.prelude_element? hs'] at he
      cases he

/-- The ids of a chain before its last one: they are places of the model, and all different, for their
ranks go down. -/
theorem Rank.chain (h : Rank m id n) :
    ∃ ids : List ShapeId, ids.length = n ∧ ids.Nodup ∧ ids ⊆ places m ∧ ∀ x ∈ ids, ∃ k ≤ n, Rank m x k := by
  induction h with
  | last => exact ⟨[], rfl, List.nodup_nil, by simp, by simp⟩
  | @step id next n hmade hrank ih =>
    obtain ⟨ids, hlen, hnd, hsub, hranks⟩ := ih
    have hid : Rank m id (n + 1) := .step hmade hrank
    have hnew : id ∉ ids := by
      intro hmem
      obtain ⟨k, hk, hidk⟩ := hranks id hmem
      have := hid.unique hidk
      omega
    refine ⟨id :: ids, by rw [List.length_cons, hlen], List.nodup_cons.2 ⟨hnew, hnd⟩,
      List.cons_subset.2 ⟨hmade.mem_places, hsub⟩, ?_⟩
    intro x hx
    rcases List.mem_cons.1 hx with rfl | hx
    · exact ⟨n + 1, Nat.le_refl _, hid⟩
    · obtain ⟨k, hk, hxk⟩ := hranks x hx
      exact ⟨k, by omega, hxk⟩

/-- **Chains that end are within the bound on the nesting of lookups.** -/
theorem Rank.lt_depth (h : Rank m id n) : n < depth m := by
  obtain ⟨ids, hlen, hnd, hsub, -⟩ := h.chain
  have hle := (hnd.subperm hsub).length_le
  rw [hlen, length_places] at hle
  unfold depth
  omega

end ClientGen.Provider
