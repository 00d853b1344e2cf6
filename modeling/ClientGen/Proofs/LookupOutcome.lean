import ClientGen.Proofs.Collision

/-!
# How lookups end

An id with a rank is never met again on the chain of lookups that starts with it, so neither the marks
nor the bound on the nesting stop its lookup.

* `lookup_marks`: a lookup leaves the marks as they are.
* `lookup_of_denotes`: the lookup of an id with a symbol fails only with a collision.
* `lookup_of_blocked`: the lookup of a blocked id fails with the collision that blocks it.
-/

namespace ClientGen.Provider

variable {lookup : ShapeId → Names Symbol} {E : Error → Prop} {P : Table → Prop}

variable {p : Provider} {m : Model} {t : Table} {id : ShapeId} {e : Error}

theorem claim_marks (marks : List ShapeId) (id : ShapeId) (name : String × String) :
    Triple (fun t => t.resolving = marks) (Names.claim id name) (fun _ t => t.resolving = marks)
      (fun _ t => t.resolving = marks) := by
  apply Triple.get_bind
  intro t ht
  split
  · exact fun t' h => h ▸ ht
  · split <;> exact fun t' h => h ▸ ht

theorem remember_marks (marks : List ShapeId) (id : ShapeId) (s : Symbol) :
    Triple (fun t => t.resolving = marks) (Names.remember id s) (fun _ t => t.resolving = marks)
      (fun _ t => t.resolving = marks) := by
  apply Triple.get_bind
  intro t ht
  split <;> exact fun t' h => h ▸ ht

/-- The computation takes away every mark that it sets. -/
def KeepsMarks (x : Names α) : Prop :=
  ∀ marks, Triple (fun t => t.resolving = marks) x (fun _ t => t.resolving = marks)
    (fun _ t => t.resolving = marks)

theorem defaultSymbol_marks (hl : ∀ next, KeepsMarks (lookup next)) : KeepsMarks (p.defaultSymbol m lookup id) := by
  intro marks
  have hpure : ∀ r : Except Error Symbol, KeepsMarks (Names.ofExcept r) := by
    intro r marks t ht
    cases r <;> exact ht
  refine defaultSymbol_cases p m lookup id (fun t ht => ht) (fun name shape members member _ _ _ _ t ht => ht) ?plain ?collection
  case plain => exact fun shape _ _ _ => hpure _ marks
  case collection => exact fun shape x _ _ _ => (hl x.target marks).bind fun element => hpure _ marks

theorem resolve_marks (hl : ∀ next, KeepsMarks (lookup next)) : KeepsMarks (p.resolve m lookup id) := by
  intro marks
  unfold resolve
  apply Triple.get_bind
  intro t ht
  split
  · exact fun t' h => h ▸ ht
  rename_i hnew
  rw [ht, List.contains_iff_mem] at hnew
  have hclear : (marks ++ [id]).filter (fun r => r != id) = marks := by
    rw [List.filter_append, List.filter_eq_self.2]
    · simp
    · intro r hr
      simp only [bne_iff_ne]
      rintro rfl
      exact hnew hr
  apply Triple.bind (Q := fun _ t => t.resolving = marks ++ [id])
  · rintro t' rfl
    exact congrArg (· ++ [id]) ht
  intro _
  apply Triple.bind
  · apply Triple.tryCatch (defaultSymbol_marks hl _)
    exact fun e t ht => (congrArg _ ht).trans hclear
  intro inner
  apply Triple.bind (Q := fun _ t => t.resolving = marks)
  · exact fun t ht => (congrArg _ ht).trans hclear
  intro _
  refine (Triple.forM _ fun name _ => claim_marks marks id name).bind fun _ => ?_
  exact remember_marks marks id _

/-- **A lookup leaves the marks as they are**, whether or not it succeeds. -/
theorem lookup_marks : ∀ fuel id, KeepsMarks (p.lookup m fuel id) := by
  intro fuel
  induction fuel with
  | zero => exact fun id marks t ht => ht
  | succ fuel ih =>
    intro id marks
    unfold lookup
    apply Triple.get_bind
    intro t ht
    split
    · exact fun t' h => h ▸ ht
    · split
      · rename_i member hst
        refine Triple.bind ?_ fun s => remember_marks marks id s
        exact (ih member.target marks).pre fun t' h => h ▸ ht
      · exact (resolve_marks ih marks).pre fun t' h => h ▸ ht

/-- No lookup of an id of the rank, or a lower one, is going on. -/
def Unmarked (m : Model) (n : Nat) (t : Table) : Prop := ∀ r ∈ t.resolving, ∀ k, Rank m r k → n < k

theorem claim_collides (id : ShapeId) (name : String × String) :
    Triple (fun _ => True) (Names.claim id name) (fun _ _ => True) (fun e _ => e.isCollision = true) := by
  apply Triple.get_bind
  intro t _
  split
  · exact fun t' _ => trivial
  · split
    · exact fun t' _ => trivial
    · exact fun t' _ => rfl

theorem Unmarked.mark {n : Nat} (ht : Unmarked m (n + 1) t) (hid : Rank m id (n + 1)) :
    Unmarked m n { t with resolving := t.resolving ++ [id] } := by
  intro r hr k hk
  rcases List.mem_append.1 hr with hr | hr
  · have := ht r hr k hk
    omega
  · rw [List.mem_singleton.1 hr] at hk
    have := hid.unique hk
    omega

/-- An id with a rank is resolved without a cycle: its default symbol is made, and registered. -/
theorem resolve_of_rank (hE : ∀ e, e.isCollision = true → E e) {n : Nat} (hid : Rank m id n)
    (hd : Triple (fun t => t.Sound p m ∧ ∀ k, n = k + 1 → Unmarked m k t) (p.defaultSymbol m lookup id)
      (fun _ _ => True) (fun e _ => E e)) :
    Triple (fun t => t.Sound p m ∧ Unmarked m n t) (p.resolve m lookup id) (fun _ _ => True)
      (fun e _ => E e) := by
  unfold resolve
  apply Triple.get_bind
  rintro t ⟨ht, hmarks⟩
  split
  · rename_i hmem
    exact absurd (hmarks id (List.contains_iff_mem.1 hmem) n hid) (Nat.lt_irrefl n)
  apply Triple.bind (Q := fun _ t => t.Sound p m ∧ ∀ k, n = k + 1 → Unmarked m k t)
  · rintro t' rfl
    refine ⟨ht.resolving _, ?_⟩
    rintro k rfl
    exact hmarks.mark hid
  intro _
  apply Triple.bind
  · exact Triple.tryCatch hd fun e t he => he
  intro inner
  apply Triple.bind (Q := fun _ _ => True)
  · exact fun t _ => trivial
  intro _
  refine (Triple.forM _ fun name _ =>
    (claim_collides id name).mono (fun _ h => h) (fun _ _ h => h) fun e _ he => hE e he).bind fun _ => ?_
  apply Triple.get_bind
  intro t _
  split <;> exact fun t' _ => trivial

/-- A lookup of an id that stands for itself resolves it, unless it is remembered. -/
theorem lookup_of_resolve {E : Error → Table → Prop} {fuel : Nat} (hst : standsFor? m id = none)
    (hr : Triple P (p.resolve m (p.lookup m fuel) id) (fun _ _ => True) E) :
    Triple P (p.lookup m (fuel + 1) id) (fun _ _ => True) E := by
  unfold lookup
  apply Triple.get_bind
  intro t ht
  rw [hst]
  split
  · exact fun t' _ => trivial
  · exact hr.pre fun t' h => h ▸ ht

/-- **The lookup of an id with a symbol fails only with a collision.** -/
theorem lookup_of_denotes {s : Symbol} (h : p.Denotes m id s) : ∀ {n fuel : Nat}, Rank m id n → n < fuel →
    Triple (fun t => t.Sound p m ∧ Unmarked m n t) (p.lookup m fuel id) (fun _ _ => True)
      (fun e _ => e.isCollision = true) := by
  -- the induction is on how the symbol is made: the rank falls along with it, so the fuel lasts
  induction h with
  | @standsFor id member s hst hden ih =>
    intro n fuel hrank hfuel
    obtain ⟨fuel, rfl⟩ : ∃ f, fuel = f + 1 := ⟨fuel - 1, by omega⟩
    cases hrank with
    | last hend => exact absurd (.standsFor hst) (hend _)
    | @step _ next n hmade hnext =>
      cases hmade.unique (.standsFor hst)
      unfold lookup
      apply Triple.get_bind
      rintro t ⟨ht, hmarks⟩
      rw [hst]
      split
      · exact fun t' _ => trivial
      refine Triple.bind (Q := fun _ _ => True) ?_ fun s => ?_
      · refine (ih hnext (by omega)).pre ?_
        rintro t' rfl
        exact ⟨ht, fun r hr k hk => by have := hmarks r hr k hk; omega⟩
      · apply Triple.get_bind
        intro t _
        split <;> exact fun t' _ => trivial
  | variant hid hs hk hm =>
    intro n fuel hrank hfuel
    obtain ⟨fuel, rfl⟩ : ∃ f, fuel = f + 1 := ⟨fuel - 1, by omega⟩
    refine lookup_of_resolve (standsFor?_of_union hs hk) (resolve_of_rank (fun _ h => h) hrank ?_)
    rw [defaultSymbol_member _ hid hs, hk, hm]
    exact fun t _ => trivial
  | plain hid hs he hsym =>
    intro n fuel hrank hfuel
    obtain ⟨fuel, rfl⟩ : ∃ f, fuel = f + 1 := ⟨fuel - 1, by omega⟩
    refine lookup_of_resolve (standsFor?_of_no_member hid) (resolve_of_rank (fun _ h => h) hrank ?_)
    rw [defaultSymbol_shape _ hid hs, he, hsym]
    exact fun t _ => trivial
  | @collection id shape x element s hid hs he hel hsym ih =>
    intro n fuel hrank hfuel
    obtain ⟨fuel, rfl⟩ : ∃ f, fuel = f + 1 := ⟨fuel - 1, by omega⟩
    refine lookup_of_resolve (standsFor?_of_no_member hid) (resolve_of_rank (fun _ h => h) hrank ?_)
    rw [defaultSymbol_shape _ hid hs, he]
    cases hrank with
    | last hend => exact absurd (.element hid hs he) (hend _)
    | @step _ next n hmade hnext =>
      cases hmade.unique (.element hid hs he)
      apply Triple.bind (Q := fun r _ => r = element)
      · refine ((lookup_triple p m {} fuel x.target).and (ih hnext (by omega))).mono ?_ ?_ (fun _ _ h => h.2)
        · exact fun t ht => ⟨invariant_empty ht.1, ht.1, ht.2 n rfl⟩
        · exact fun r t h => h.1.2.1.unique hel
      · rintro r t rfl
        rw [hsym]
        exact trivial

/-- Where the id is marked, or its default symbol is refused, resolving fails. -/
theorem resolve_fails (hmarked : ∀ t, P t → id ∈ t.resolving → E (.invalidModel (.cyclicSymbol id)))
    (hd : Triple (fun t' => ∃ t, P t ∧ id ∉ t.resolving ∧ t' = { t with resolving := t.resolving ++ [id] })
      (p.defaultSymbol m lookup id) (fun _ _ => False) (fun e _ => E e)) :
    Triple P (p.resolve m lookup id) (fun _ _ => False) (fun e _ => E e) := by
  unfold resolve
  apply Triple.get_bind
  intro t ht
  split
  · rename_i hmem
    exact fun _ _ => hmarked t ht (List.contains_iff_mem.1 hmem)
  rename_i hnew
  rw [List.contains_iff_mem] at hnew
  apply Triple.bind
    (Q := fun _ t' => ∃ t, P t ∧ id ∉ t.resolving ∧ t' = { t with resolving := t.resolving ++ [id] })
  · rintro t' rfl
    exact ⟨t', ht, hnew, rfl⟩
  intro _
  refine Triple.bind (Q := fun _ _ => False) ?_ fun _ _ h => h.elim
  exact Triple.tryCatch hd fun e t he => he

/-- A lookup goes on from an id to the one that its symbol is made from, and fails if that lookup does. Going on from a
collection it leaves a mark. -/
theorem lookup_fails {next : ShapeId} {fuel : Nat} (hmade : MadeFrom m id next) (hnew : ∀ t, P t → t.cached? id = none)
    (hmarked : id.member = none → ∀ t, P t → id ∈ t.resolving → E (.invalidModel (.cyclicSymbol id)))
    (hmember : id.member ≠ none → Triple P (p.lookup m fuel next) (fun _ _ => False) (fun e _ => E e))
    (helement : id.member = none →
      Triple (fun t' => ∃ t, P t ∧ id ∉ t.resolving ∧ t' = { t with resolving := t.resolving ++ [id] })
        (p.lookup m fuel next) (fun _ _ => False) (fun e _ => E e)) :
    Triple P (p.lookup m (fuel + 1) id) (fun _ _ => False) (fun e _ => E e) := by
  unfold lookup
  apply Triple.get_bind
  intro t ht
  rw [hnew t ht]
  cases hmade with
  | standsFor hst =>
    have hid : id.member ≠ none := by
      obtain ⟨name, -, hname, -⟩ := standsFor?_eq_some hst
      rw [hname]
      exact Option.some_ne_none name
    rw [hst]
    refine Triple.bind (Q := fun _ _ => False) ?_ fun _ _ h => h.elim
    exact (hmember hid).pre fun t' h => h ▸ ht
  | element hid hs he =>
    rw [standsFor?_of_no_member hid]
    have hresolve : Triple P (p.resolve m (p.lookup m fuel) id) (fun _ _ => False) (fun e _ => E e) := by
      refine resolve_fails (hmarked hid) ?_
      rw [defaultSymbol_shape _ hid hs, he]
      exact Triple.bind (helement hid) fun _ _ h => h.elim
    exact hresolve.pre fun t' h => h ▸ ht

/-- A lookup leaves a blocked id blocked, and one with a symbol is also blocked by what its lookup fails
with: the two collisions are the same. -/
theorem lookup_of_blocked_denotes {s : Symbol} {n fuel : Nat} (hden : p.Denotes m id s) (hrank : Rank m id n)
    (hfuel : n < fuel) :
    Triple (fun t => (t.Sound p m ∧ Unmarked m n t) ∧ p.Blocked m t id e) (p.lookup m fuel id)
      (fun _ _ => False) (fun e' _ => e' = e) := by
  rintro t₀ ⟨ht₀, hb⟩
  have hall := ((lookup_triple p m t₀ fuel id).and (lookup_of_denotes hden hrank hfuel)).and
    (lookup_kept (keepsOwners_kept t₀) fuel id trivial)
  refine (hall.mono (fun _ h => h) ?_ ?_) t₀ ⟨⟨⟨ht₀.1, .refl t₀⟩, ht₀⟩, ht₀.1, fun _ _ h => h⟩
  · rintro r t ⟨⟨⟨hinv, -, hcached⟩, -⟩, hown⟩
    rw [(hb.mono hinv.2 hown).not_cached hinv.1] at hcached
    cases hcached
  · rintro e' t ⟨⟨hinv, hcol⟩, hown, hblocked⟩
    exact (hblocked hcol).unique (hb.mono hinv.2 hown) hinv.1

/-- **The lookup of a blocked id fails with the collision that blocks it.** -/
theorem lookup_of_blocked : ∀ {fuel n : Nat} {id : ShapeId}, Rank m id n → n < fuel →
    Triple (fun t => (t.Sound p m ∧ Unmarked m n t) ∧ p.Blocked m t id e) (p.lookup m fuel id)
      (fun _ _ => False) (fun e' _ => e' = e) := by
  intro fuel
  induction fuel with
  | zero => exact fun _ h => absurd h (Nat.not_lt_zero _)
  | succ fuel ih =>
    rintro n id hrank hfuel t₀ ⟨ht₀, hblocked⟩
    cases hblocked with
    | own hst hden hprep hdecl hbefore howner hne =>
      exact lookup_of_blocked_denotes hden hrank hfuel t₀
        ⟨ht₀, .own hst hden hprep hdecl hbefore howner hne⟩
    | @madeFrom _ next _ hmade hnext =>
      have hnone := (Blocked.madeFrom hmade hnext).not_cached ht₀.1
      cases hrank with
      | last hend => exact absurd hmade (hend _)
      | @step _ next' n hmade' hrank' =>
        cases hmade'.unique hmade
        have hrest := ih hrank' (by omega)
        have hid : Rank m id (n + 1) := .step hmade hrank'
        refine lookup_fails (P := fun t => t = t₀) (E := (· = e)) hmade ?_ ?_ ?_ ?_ t₀ rfl
        · rintro t rfl
          exact hnone
        · rintro - t rfl hin
          exact absurd (ht₀.2 id hin _ hid) (Nat.lt_irrefl _)
        · intro _
          refine hrest.pre ?_
          rintro t rfl
          exact ⟨⟨ht₀.1, fun r hr k hk => by have := ht₀.2 r hr k hk; omega⟩, hnext⟩
        · intro _
          refine hrest.pre ?_
          rintro _ ⟨t, rfl, -, rfl⟩
          exact ⟨⟨ht₀.1.resolving _, ht₀.2.mark hid⟩, hnext.mono (fun _ _ h => h) (fun _ _ h => h)⟩

end ClientGen.Provider
