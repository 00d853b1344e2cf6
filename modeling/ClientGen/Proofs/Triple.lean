import ClientGen.Symbol.Table

/-!
# Reasoning about computations with a state that may fail

`Triple P x Q E`: started in a state with `P`, the computation `x` ends with a result and a state that
satisfy `Q`, or with an error and a state that satisfy `E`. There is one rule for each way of composing
computations, and none of them looks inside the state. Both `Names` and `DraftM` are computations of
this kind.
-/

namespace ClientGen

variable {ε σ α β : Type}

/-- From states with `P`, successes satisfy `Q` and failures satisfy `E`. -/
def Triple (P : σ → Prop) (x : ExceptT ε (StateM σ) α) (Q : α → σ → Prop) (E : ε → σ → Prop) : Prop :=
  ∀ t, P t → match x.run t with
    | (.ok a, t') => Q a t'
    | (.error e, t') => E e t'

theorem run_bind (x : ExceptT ε (StateM σ) α) (f : α → ExceptT ε (StateM σ) β) (t : σ) :
    (x >>= f).run t = match x.run t with
      | (.ok a, t') => (f a).run t'
      | (.error e, t') => (.error e, t') := by
  show ExceptT.bindCont f (x.run t).1 (x.run t).2 = _
  cases x.run t with
  | mk r t' => cases r <;> rfl

theorem run_bind_ok {x : ExceptT ε (StateM σ) α} {f : α → ExceptT ε (StateM σ) β} {t t' : σ} {b : β} :
    (x >>= f).run t = (.ok b, t') ↔ ∃ a t₁, x.run t = (.ok a, t₁) ∧ (f a).run t₁ = (.ok b, t') := by
  rw [run_bind]
  cases hx : x.run t with
  | mk r t₁ =>
    cases r with
    | ok a =>
      constructor
      · exact fun h => ⟨a, t₁, rfl, h⟩
      · rintro ⟨a', t', ⟨⟩, h⟩
        exact h
    | error e =>
      constructor
      · rintro ⟨⟩
      · rintro ⟨a', t', ⟨⟩, -⟩

theorem run_tryCatch (x : ExceptT ε (StateM σ) α) (f : ε → ExceptT ε (StateM σ) α) (t : σ) :
    (tryCatch x f).run t = match x.run t with
      | (.ok a, t') => (.ok a, t')
      | (.error e, t') => (f e).run t' := by
  rw [ExceptT.run_tryCatch]
  simp only [bind, StateT.bind]
  cases x.run t with
  | mk r t' => cases r <;> rfl

namespace Triple

variable {P P' : σ → Prop} {Q Q' : α → σ → Prop} {E E' : ε → σ → Prop} {x : ExceptT ε (StateM σ) α}

theorem of_run_ok (h : Triple P x Q E) {t : σ} (ht : P t) {a : α} (hr : (x.run t).1 = .ok a) :
    Q a (x.run t).2 := by
  have := h t ht
  cases hx : x.run t with
  | mk r t' =>
    rw [hx] at this hr
    cases hr
    exact this

theorem of_run_error (h : Triple P x Q E) {t : σ} (ht : P t) {e : ε} (hr : (x.run t).1 = .error e) :
    E e (x.run t).2 := by
  have := h t ht
  cases hx : x.run t with
  | mk r t' =>
    rw [hx] at this hr
    cases hr
    exact this

/-- What holds however the computation ends. -/
theorem of_run {R : σ → Prop} (h : Triple P x (fun _ => R) (fun _ => R)) {t : σ} (ht : P t) :
    R (x.run t).2 := by
  cases hr : (x.run t).1 with
  | ok a => exact h.of_run_ok ht hr
  | error e => exact h.of_run_error ht hr

theorem mono (h : Triple P x Q E) (hP : ∀ t, P' t → P t) (hQ : ∀ a t, Q a t → Q' a t)
    (hE : ∀ e t, E e t → E' e t) : Triple P' x Q' E' := by
  intro t ht
  have := h t (hP t ht)
  cases hx : x.run t with
  | mk r t' =>
    rw [hx] at this
    cases r with
    | ok a => exact hQ a t' this
    | error e => exact hE e t' this

theorem pre (h : Triple P x Q E) (hP : ∀ t, P' t → P t) : Triple P' x Q E := fun t ht => h t (hP t ht)

theorem and (h : Triple P x Q E) (h' : Triple P' x Q' E') :
    Triple (fun t => P t ∧ P' t) x (fun a t => Q a t ∧ Q' a t) (fun e t => E e t ∧ E' e t) := by
  intro t ht
  have hx := h t ht.1
  have hx' := h' t ht.2
  cases hr : x.run t with
  | mk r t' =>
    rw [hr] at hx hx'
    cases r with
    | ok a | error e => exact ⟨hx, hx'⟩

theorem of_and {R : Prop} (h : R → Triple P x Q E) : Triple (fun t => P t ∧ R) x Q E :=
  fun t ht => h ht.2 t ht.1

theorem pure (a : α) : Triple (Q a) (Pure.pure a) Q E := fun _ h => h

theorem bind {f : α → ExceptT ε (StateM σ) β} {R : β → σ → Prop} (hx : Triple P x Q E)
    (hf : ∀ a, Triple (Q a) (f a) R E) : Triple P (x >>= f) R E := by
  intro t ht
  rw [run_bind]
  have := hx t ht
  cases hr : x.run t with
  | mk r t' =>
    rw [hr] at this
    cases r with
    | ok a => exact hf a t' this
    | error e => exact this

theorem get_bind {f : σ → ExceptT ε (StateM σ) β} {R : β → σ → Prop}
    (h : ∀ t, P t → Triple (fun t' => t' = t) (f t) R E) : Triple P (get >>= f) R E := by
  apply bind (Q := fun a t => t = a ∧ P a)
  · exact fun t ht => ⟨rfl, ht⟩
  · exact fun a t ht => h a ht.2 t ht.1

theorem tryCatch {f : ε → ExceptT ε (StateM σ) α} (hx : Triple P x Q E') (hf : ∀ e, Triple (E' e) (f e) Q E) :
    Triple P (MonadExcept.tryCatch x f) Q E := by
  intro t ht
  rw [run_tryCatch]
  have := hx t ht
  cases hr : x.run t with
  | mk r t' =>
    rw [hr] at this
    cases r with
    | ok a => exact this
    | error e => exact hf e t' this

theorem forM {I : σ → Prop} {f : β → ExceptT ε (StateM σ) PUnit} (bs : List β)
    (h : ∀ b ∈ bs, Triple I (f b) (fun _ => I) E) : Triple I (bs.forM f) (fun _ => I) E := by
  induction bs with
  | nil => exact pure (Q := fun _ => I) PUnit.unit
  | cons b bs ih =>
    exact (h b (by simp)).bind fun _ => ih fun c hc => h c (List.mem_cons_of_mem _ hc)

end Triple

end ClientGen
