import ClientGen.Context
import ClientGen.Proofs.SymbolTable

/-!
# What a plan mentions and defines

Two views of a script: the symbols that it mentions anywhere, and the names that it defines at the top
level, outside of all blocks.
-/

namespace ClientGen

mutual

/-- The symbols that a step mentions. -/
def Step.mentions : Step → List Symbol
  | .line _ args => Arg.mentionsAll args
  | .inline _ args => Arg.mentionsAll args
  | .block _ args body => Arg.mentionsAll args ++ Step.mentionsAll body
  | .define _ _ _ args body => Arg.mentionsAll args ++ Step.mentionsAll body
  | .importSymbol s => [s]
  | .put _ (.symbol s) => [s]
  | .scope _ body => Step.mentionsAll body
  | _ => []

def Step.mentionsAll : List Step → List Symbol
  | [] => []
  | s :: rest => Step.mentions s ++ Step.mentionsAll rest

def Arg.mentions : Arg → List Symbol
  | .symbol s => [s]
  | .deferred s => [s]
  | .name s => [s]
  | .code body => Step.mentionsAll body
  | _ => []

def Arg.mentionsAll : List Arg → List Symbol
  | [] => []
  | a :: rest => Arg.mentions a ++ Arg.mentionsAll rest

end

mutual

/-- The names that a step defines at the level it stands on. -/
def Step.definitions : Step → List String
  | .define _ name _ _ _ => [name]
  | .scope _ body => Step.definitionsAll body
  | _ => []

def Step.definitionsAll : List Step → List String
  | [] => []
  | s :: rest => Step.definitions s ++ Step.definitionsAll rest

end

attribute [simp] Arg.mentions Arg.mentionsAll Step.mentions

theorem Step.mentionsAll_eq (steps : List Step) : Step.mentionsAll steps = steps.flatMap Step.mentions := by
  induction steps with
  | nil => rfl
  | cons s rest ih => simp [Step.mentionsAll, ih]

theorem Step.definitionsAll_eq (steps : List Step) :
    Step.definitionsAll steps = steps.flatMap Step.definitions := by
  induction steps with
  | nil => rfl
  | cons s rest ih => simp [Step.definitionsAll, ih]

/-- How output is looked at. -/
structure View (ω δ : Type) where
  mentions : ω → List Symbol
  definitions : ω → List δ

def View.steps : View Step String := ⟨Step.mentions, Step.definitions⟩

/-- The definitions of an edit, with the module that they stand in. -/
def View.edits : View Edit (String × String) where
  mentions := fun e => Step.mentionsAll e.script
  definitions := fun e => (Step.definitionsAll e.script).map fun name => (e.ns, name)

/-- The module that something stands in, if steps are written to `here`. -/
class Located (ω : Type) where
  home (here : String) : ω → String

instance : Located Step := ⟨fun here _ => here⟩

instance : Located Edit := ⟨fun _ e => e.ns⟩

/-- A run, and what is asked of the symbols that the modules mention in it. -/
structure Reading where
  cx : Context
  /-- The module that steps are written to. -/
  here : String
  GoodIn : String → Symbol → Prop

/-- What is asked of symbols where steps are written to. -/
def Reading.Good (r : Reading) (s : Symbol) : Prop := r.GoodIn r.here s

/-- The same run, where steps are written to the given module. -/
@[reducible] def Reading.inside (r : Reading) (here : String) : Reading := { r with here }

/-- The symbol that an id denotes. -/
noncomputable def Context.sym (cx : Context) (id : ShapeId) : Symbol :=
  open Classical in if h : ∃ s, cx.provider.Denotes cx.model id s then h.choose else default

/-- A helper of the symbol that an id denotes. -/
noncomputable def Context.helper (cx : Context) (id : ShapeId) (role : String) : Symbol :=
  ((cx.sym id).property? role).getD default

theorem Symbol.property_eq_ok {s helper : Symbol} {role : String} (h : s.property role = .ok helper) :
    s.property? role = some helper := by
  unfold property at h
  split at h
  · rename_i hp
    cases h
    exact hp
  · cases h

theorem Context.sym_eq {cx : Context} {id : ShapeId} {s : Symbol} (h : cx.provider.Denotes cx.model id s) :
    cx.sym id = s := by
  have hex : ∃ s, cx.provider.Denotes cx.model id s := ⟨s, h⟩
  unfold sym
  rw [dif_pos hex]
  exact hex.choose_spec.unique h

theorem Context.helper_eq {cx : Context} {id : ShapeId} {role : String} {s : Symbol}
    (h : (cx.sym id).property role = .ok s) : cx.helper id role = s := by
  unfold helper
  rw [Symbol.property_eq_ok h]
  rfl

theorem Plan.bind_ok {ω α β : Type} {x : Plan ω α} {f : α → Plan ω β} {t : Table} {b : β}
    (h : ((x >>= f) t).result = .ok b) : ∃ a, (x t).result = .ok a ∧ (f a (x t).names).result = .ok b := by
  simp only [Bind.bind, Plan.bind] at h
  split at h
  · cases h
  · exact ⟨_, ‹_›, h⟩

/-- If the plan succeeds, `R` holds of what it emits, its result, and the table at its end. -/
def Context.Ensures (cx : Context) (x : Plan ω α) (R : List ω → α → Table → Prop) : Prop :=
  ∀ t a, t.Sound cx.provider cx.model → (x t).result = .ok a →
    (x t).names.Sound cx.provider cx.model ∧ t.Grows (x t).names ∧ R (x t).out a (x t).names

namespace Context

variable {cx : Context} {ω α β : Type} {x : Plan ω α} {R R' : List ω → α → Table → Prop} {S : List ω → β → Table → Prop}

theorem Ensures.mono (h : cx.Ensures x R)
    (hR : ∀ out a t, t.Sound cx.provider cx.model → R out a t → R' out a t) : cx.Ensures x R' := by
  intro t a ht hx
  obtain ⟨hs, hg, hr⟩ := h t a ht hx
  exact ⟨hs, hg, hR _ _ _ hs hr⟩

theorem Ensures.bind {f : α → Plan ω β} (hx : cx.Ensures x R)
    (hf : ∀ out a t, R out a t → cx.Ensures (f a) fun out' b t' => t.Grows t' → S (out ++ out') b t') :
    cx.Ensures (x >>= f) S := by
  intro t b ht hb
  simp only [Bind.bind, Plan.bind] at hb ⊢
  cases hr : (x t).result with
  | error e =>
    rw [hr] at hb
    cases hb
  | ok a =>
    simp only [hr] at hb ⊢
    obtain ⟨hs, hg, hR⟩ := hx t a ht hr
    obtain ⟨hs', hg', hS⟩ := hf _ a _ hR _ b hs hb
    exact ⟨hs', hg.trans hg', hS hg'⟩

theorem ensures_symbol (id : ShapeId) : cx.Ensures (cx.symbol id : Plan ω Symbol) fun out s t =>
    out = [] ∧ s = cx.sym id ∧ cx.provider.Denotes cx.model id s ∧ t.cached? id = some s := by
  intro t s ht hx
  have hx' : ((cx.provider.symbol cx.model id).run t).1 = .ok s := hx
  obtain ⟨hs, hg⟩ := Provider.symbol_keeps ht id
  obtain ⟨hden, hc⟩ := Provider.symbol_ok ht hx'
  exact ⟨hs, hg, rfl, (sym_eq hden).symm, hden, hc⟩

theorem ensures_ofExcept (e : Except Error α) :
    cx.Ensures (liftM e : Plan ω α) fun out a _ => out = [] ∧ e = .ok a :=
  fun t _ ht hx => ⟨ht, .refl t, rfl, hx⟩

theorem ensures_fail (e : Error) : cx.Ensures (Plan.fail e : Plan ω α) R := by
  intro t a ht hx
  cases hx

theorem Ensures.lookup {id : ShapeId} {f : Symbol → Plan ω β} (h : cx.Ensures (f (cx.sym id)) S) :
    cx.Ensures (cx.symbol id >>= f) S := by
  refine (ensures_symbol id).bind fun out s t hs => ?_
  obtain ⟨rfl, rfl, -, -⟩ := hs
  exact h.mono fun _ _ _ _ hS _ => hS

theorem Ensures.except {e : Except Error α} {f : α → Plan ω β} (h : ∀ a, e = .ok a → cx.Ensures (f a) S) :
    cx.Ensures (liftM e >>= f) S := by
  refine (ensures_ofExcept e).bind fun out a t ha => ?_
  obtain ⟨rfl, ha⟩ := ha
  exact (h a ha).mono fun _ _ _ _ hS _ => hS

theorem Ensures.shape {target : ShapeId} {f : Shape → Plan ω β}
    (h : ∀ shape, cx.model.get? target = some shape → cx.Ensures (f shape) S) :
    cx.Ensures (liftM (cx.shape target) >>= f) S :=
  Ensures.except fun shape hshape => h shape (Model.expect_eq_ok.1 hshape)

theorem Ensures.property {id : ShapeId} {role : String} {f : Symbol → Plan ω β}
    (h : cx.Ensures (f (cx.helper id role)) S) : cx.Ensures (liftM ((cx.sym id).property role) >>= f) S := by
  refine Ensures.except fun s hs => ?_
  rw [← helper_eq hs]
  exact h

end Context

namespace Reading

/-- The table has the symbols of the ids. -/
def Knows (r : Reading) (t : Table) (ids : List ShapeId) : Prop :=
  ∀ id ∈ ids, t.cached? id = some (r.cx.sym id)

/-- **What is known of a plan that succeeds**: all that it mentions is good exactly under the condition
`N`, it defines the names `L`, the symbols of the ids `K` are known at its end, and its result satisfies
`Q`. -/
def Yields [Located ω] (r : Reading) (v : View ω δ) (x : Plan ω α) (N : Prop) (L : List δ) (K : List ShapeId)
    (Q : α → Prop) : Prop :=
  r.cx.Ensures x fun out a t =>
    ((∀ w ∈ out, ∀ s ∈ v.mentions w, r.GoodIn (Located.home r.here w) s) ↔ N) ∧ out.flatMap v.definitions = L ∧
      r.Knows t K ∧ Q a

/-- The same for steps, whatever the result is. -/
def Writes (r : Reading) (x : Plan Step α) (N : Prop) (L : List String) (K : List ShapeId) : Prop :=
  r.Yields .steps x N L K fun _ => True

variable {r : Reading} {ω δ α β : Type} [Located ω] {v : View ω δ} {x : Plan ω α} {N N' N₁ N₂ : Prop}
  {L L' L₁ L₂ : List δ} {K K' K₁ K₂ : List ShapeId} {Q : α → Prop} {Q' : β → Prop}

theorem Yields.congr (h : r.Yields v x N L K Q) (hN : N ↔ N') (hL : L = L') (hK : K' ⊆ K) :
    r.Yields v x N' L' K' Q := by
  subst hL
  exact Context.Ensures.mono h fun _ _ _ _ ⟨hn, hl, hk, hq⟩ => ⟨hn.trans hN, hl, fun id hid => hk id (hK hid), hq⟩

theorem Yields.weaken {Q₁ : α → Prop} (h : r.Yields v x N L K Q) (hQ : ∀ a, Q a → Q₁ a) :
    r.Yields v x N L K Q₁ :=
  Context.Ensures.mono h fun _ a _ _ ⟨hn, hl, hk, hq⟩ => ⟨hn, hl, hk, hQ a hq⟩

theorem Knows.grows {t t' : Table} (h : r.Knows t K) (hg : t.Grows t') : r.Knows t' K :=
  fun id hid => hg id _ (h id hid)

theorem yields_pure (a : α) (h : Q a) : r.Yields v (pure a) True [] [] Q := by
  intro t b ht hx
  cases hx
  exact ⟨ht, .refl t, by simp [pure, Plan.pure], rfl, by simp [Knows], h⟩

theorem yields_fail (e : Error) : r.Yields v (Plan.fail e : Plan ω α) N L K Q := by
  intro t b ht hx
  cases hx

theorem Yields.bind {f : α → Plan ω β} (hx : r.Yields v x N₁ L₁ K₁ Q)
    (hf : ∀ a, Q a → r.Yields v (f a) N₂ L₂ K₂ Q') :
    r.Yields v (x >>= f) (N₁ ∧ N₂) (L₁ ++ L₂) (K₁ ++ K₂) Q' := by
  refine Context.Ensures.bind hx fun out a t h => ?_
  obtain ⟨hn, hl, hk, hq⟩ := h
  refine Context.Ensures.mono (hf a hq) fun out' b t' _ h' hg => ?_
  obtain ⟨hn', hl', hk', hq'⟩ := h'
  refine ⟨?_, ?_, ?_, hq'⟩
  · rw [← hn, ← hn', List.forall_mem_append]
  · rw [List.flatMap_append, hl, hl']
  · intro id hid
    rcases List.mem_append.1 hid with h | h
    · exact hk.grows hg id h
    · exact hk' id h

theorem yields_symbol (id : ShapeId) :
    r.Yields v (r.cx.symbol id : Plan ω Symbol) True [] [id]
      fun s => s = r.cx.sym id ∧ r.cx.provider.Denotes r.cx.model id s := by
  refine Context.Ensures.mono (Context.ensures_symbol id) fun out s t _ h => ?_
  obtain ⟨rfl, hs, hden, hc⟩ := h
  refine ⟨by simp, rfl, ?_, hs, hden⟩
  intro id' hid
  rw [List.mem_singleton.1 hid, ← hs]
  exact hc

theorem Yields.lookup {id : ShapeId} {f : Symbol → Plan ω β}
    (h : r.cx.provider.Denotes r.cx.model id (r.cx.sym id) →
      r.Yields v (f (r.cx.sym id)) N L K Q') :
    r.Yields v (r.cx.symbol id >>= f) N L (id :: K) Q' := by
  have hf : ∀ s, s = r.cx.sym id ∧ r.cx.provider.Denotes r.cx.model id s → r.Yields v (f s) N L K Q' := by
    rintro s ⟨rfl, hden⟩
    exact h hden
  exact ((yields_symbol id).bind hf).congr (by simp) rfl (List.Subset.refl _)

theorem yields_ofExcept (e : Except Error α) :
    r.Yields v (liftM e : Plan ω α) True [] [] fun a => e = .ok a := by
  refine Context.Ensures.mono (Context.ensures_ofExcept e) fun out a t _ h => ?_
  obtain ⟨rfl, ha⟩ := h
  exact ⟨by simp, rfl, by simp [Knows], ha⟩

theorem Yields.except {e : Except Error α} {f : α → Plan ω β}
    (h : ∀ a, e = .ok a → r.Yields v (f a) N L K Q') : r.Yields v (liftM e >>= f) N L K Q' :=
  ((yields_ofExcept e).bind h).congr (by simp) rfl (by simp)

theorem Yields.known {e : Except Error α} {a : α} {f : α → Plan ω β} (he : e = .ok a)
    (h : r.Yields v (f a) N L K Q') : r.Yields v (liftM e >>= f) N L K Q' := by
  refine Yields.except fun b hb => ?_
  rw [he] at hb
  cases hb
  exact h

theorem Yields.property {id : ShapeId} {role : String} {f : Symbol → Plan ω β}
    (h : (r.cx.sym id).property? role = some (r.cx.helper id role) →
      r.Yields v (f (r.cx.helper id role)) N L K Q') :
    r.Yields v (liftM ((r.cx.sym id).property role) >>= f) N L K Q' := by
  refine Yields.except fun helper hhelper => ?_
  have hp := Symbol.property_eq_ok hhelper
  rw [← Context.helper_eq hhelper] at hp ⊢
  exact h hp

theorem yields_emit (w : ω) :
    r.Yields v (Plan.emit w) (∀ s ∈ v.mentions w, r.GoodIn (Located.home r.here w) s) (v.definitions w) [] fun _ =>
      True := by
  intro t a ht hx
  exact ⟨ht, .refl t, by simp [Plan.emit], by simp [Plan.emit], by simp [Knows], trivial⟩

theorem Yields.within {here : String} {body : Plan Step Unit} {wrap : Script → ω} {names : List String}
    (h : (r.inside here).Yields .steps body N₁ names K fun _ => True)
    (hN : ∀ out, (∀ s ∈ v.mentions (wrap out), r.GoodIn (Located.home r.here (wrap out)) s) ↔
      N₂ ∧ ∀ s ∈ Step.mentionsAll out, r.GoodIn here s)
    (hL : ∀ out, Step.definitionsAll out = names → v.definitions (wrap out) = L) :
    r.Yields v (Plan.within body wrap) (N₂ ∧ N₁) L K fun _ => True := by
  intro t a ht hx
  unfold Plan.within at hx ⊢
  cases hr : (body t).result with
  | error e =>
    simp only [hr] at hx
    cases hx
  | ok b =>
    simp only [hr]
    obtain ⟨hs, hg, hn, hl, hk, -⟩ := h t b ht hr
    refine ⟨hs, hg, ?_, ?_, hk, trivial⟩
    · rw [← hn]
      simp only [List.mem_singleton, forall_eq, hN, Step.mentionsAll_eq, List.mem_flatMap]
      refine and_congr_right fun _ => ⟨fun h w hw s hm => h s ⟨w, hw, hm⟩, fun h s hs => ?_⟩
      obtain ⟨w, hw, hm⟩ := hs
      exact h w hw s hm
    · simp [hL _ ((Step.definitionsAll_eq _).trans hl)]

theorem Yields.wrapped {here : String} {body : Plan Step Unit} {wrap : Script → ω} {names : List String}
    (h : (r.inside here).Yields .steps body N names K fun _ => True)
    (hN : ∀ out, v.mentions (wrap out) = Step.mentionsAll out) (hhome : ∀ out, Located.home r.here (wrap out) = here)
    (hL : ∀ out, Step.definitionsAll out = names → v.definitions (wrap out) = L) :
    r.Yields v (Plan.within body wrap) N L K fun _ => True := by
  have hwrap : ∀ out, (∀ s ∈ v.mentions (wrap out), r.GoodIn (Located.home r.here (wrap out)) s) ↔
      True ∧ ∀ s ∈ Step.mentionsAll out, r.GoodIn here s := by
    intro out
    rw [hN out, hhome out, true_and]
  exact (h.within hwrap hL).congr (iff_of_eq (true_and N)) rfl (List.Subset.refl _)

theorem yields_forM {bs : List β} {f : β → Plan ω PUnit} {n : β → Prop} {l : β → List δ}
    {k : β → List ShapeId} (h : ∀ b ∈ bs, r.Yields v (f b) (n b) (l b) (k b) fun _ => True) :
    r.Yields v (bs.forM f) (∀ b ∈ bs, n b) (bs.flatMap l) (bs.flatMap k) fun _ => True := by
  induction bs with
  | nil => exact (yields_pure PUnit.unit trivial).congr (by simp) rfl (List.Subset.refl _)
  | cons b bs ih =>
    refine ((h b (by simp)).bind fun _ _ => ih fun c hc => h c (List.mem_cons_of_mem _ hc)).congr ?_ ?_ ?_
    · rw [List.forall_mem_cons]
    · rw [List.flatMap_cons]
    · rw [List.flatMap_cons]
      exact List.Subset.refl _

theorem yields_mapM {γ : Type} {bs : List β} {f : β → Plan ω γ} {n : β → Prop} {k : β → List ShapeId}
    (h : ∀ b ∈ bs, r.Yields v (f b) (n b) [] (k b) fun _ => True) :
    r.Yields v (bs.mapM f) (∀ b ∈ bs, n b) [] (bs.flatMap k) fun _ => True := by
  suffices hloop : ∀ acc, r.Yields v (List.mapM.loop f bs acc) (∀ b ∈ bs, n b) [] (bs.flatMap k) fun _ => True from
    hloop []
  induction bs with
  | nil => exact fun acc => (yields_pure _ trivial).congr (by simp) rfl (List.Subset.refl _)
  | cons b bs ih =>
    intro acc
    refine ((h b (by simp)).bind fun c _ =>
      ih (fun d hd => h d (List.mem_cons_of_mem _ hd)) (c :: acc)).congr ?_ rfl ?_
    · rw [List.forall_mem_cons]
    · rw [List.flatMap_cons]
      exact List.Subset.refl _

/-! ### Steps -/

variable {y : Plan Step α} {body : Plan Step Unit} {names names' : List String} {template : String}
  {args : List Arg}

theorem Writes.congr (h : r.Writes y N names K) (hN : N ↔ N') (hL : names = names') (hK : K' ⊆ K) :
    r.Writes y N' names' K' :=
  Yields.congr h hN hL hK

theorem Writes.quiet (h : r.Writes y N names K) (hN : N) : r.Writes y True names K :=
  h.congr (iff_true_intro hN) rfl (List.Subset.refl _)

theorem writes_pure (a : α) : r.Writes (pure a) True [] [] := yields_pure a trivial

/-- One plan after another, whose course does not depend on the first one's result. -/
theorem Writes.seq {f : α → Plan Step β} (hy : r.Writes y N₁ names K₁)
    (hf : ∀ a, r.Writes (f a) N₂ names' K₂) :
    r.Writes (y >>= f) (N₁ ∧ N₂) (names ++ names') (K₁ ++ K₂) :=
  Yields.bind hy fun a _ => hf a

theorem Writes.lookup {id : ShapeId} {f : Symbol → Plan Step β}
    (h : r.cx.provider.Denotes r.cx.model id (r.cx.sym id) → r.Writes (f (r.cx.sym id)) N names K) :
    r.Writes (r.cx.symbol id >>= f) N names (id :: K) :=
  Yields.lookup h

theorem Writes.except {e : Except Error α} {f : α → Plan Step β}
    (h : ∀ a, e = .ok a → r.Writes (f a) N names K) : r.Writes (liftM e >>= f) N names K :=
  Yields.except h

theorem Writes.property {id : ShapeId} {role : String} {f : Symbol → Plan Step β}
    (h : (r.cx.sym id).property? role = some (r.cx.helper id role) →
      r.Writes (f (r.cx.helper id role)) N names K) :
    r.Writes (liftM ((r.cx.sym id).property role) >>= f) N names K :=
  Yields.property h

theorem Writes.shape {target : ShapeId} {shape : Shape} {f : Shape → Plan Step α}
    (hs : r.cx.model.get? target = some shape) (h : r.Writes (f shape) N names K) :
    r.Writes (liftM (r.cx.shape target) >>= f) N names K :=
  Yields.known (Model.expect_eq_ok.2 hs) h

theorem writes_noShape {target : ShapeId} {f : Shape → Plan Step α} (hs : r.cx.model.get? target = none) :
    r.Writes (liftM (r.cx.shape target) >>= f) N names K := by
  refine Yields.except fun shape hshape => ?_
  unfold Context.shape at hshape
  rw [Model.expect_eq_ok, hs] at hshape
  cases hshape

theorem Writes.ite {c : Prop} [Decidable c] {y' : Plan Step α} (h : r.Writes y N names K)
    (h' : r.Writes y' N names K) : r.Writes (if c then y else y') N names K := by
  split
  · exact h
  · exact h'

theorem writes_emit (step : Step) :
    r.Writes (Plan.emit step) (∀ s ∈ step.mentions, r.Good s) step.definitions [] := yields_emit step

theorem Writes.onlyIf {c : Bool} (h : r.Writes body N names K) :
    r.Writes (Plan.onlyIf c body) (c = true → N) (if c then names else []) (if c then K else []) := by
  cases c with
  | true => exact h.congr (by simp) rfl (by simp)
  | false => exact (writes_pure ()).congr (by simp) rfl (by simp)

theorem writes_line : r.Writes (Plan.line template args) (∀ s ∈ Arg.mentionsAll args, r.Good s) [] [] :=
  (writes_emit _).congr (by simp) rfl (by simp)

theorem writes_inline : r.Writes (Plan.inline template args) (∀ s ∈ Arg.mentionsAll args, r.Good s) [] [] :=
  (writes_emit _).congr (by simp) rfl (by simp)

theorem writes_newline : r.Writes Plan.newline True [] [] :=
  (writes_emit _).congr (by simp) rfl (by simp)

theorem writes_separate : r.Writes Plan.separate True [] [] :=
  (writes_newline.seq fun _ => writes_newline).congr (by simp) rfl (by simp)

theorem writes_docs (text : String) : r.Writes (Plan.docs text) True [] [] :=
  (writes_emit _).congr (by simp) rfl (by simp)

theorem writes_leadingDocs (text : Option String) : r.Writes (Plan.leadingDocs text) True [] [] := by
  unfold Plan.leadingDocs
  split
  · exact ((writes_docs _).seq fun _ => writes_newline).congr (by simp) rfl (by simp)
  · exact writes_pure ()

theorem writes_trailingDocs (text : Option String) : r.Writes (Plan.trailingDocs text) True [] [] := by
  unfold Plan.trailingDocs
  split
  · exact writes_docs _
  · exact writes_pure ()

theorem writes_reference (here : String) (s : Symbol) : r.Writes (Plan.reference here s) (r.Good s) [] [] :=
  ((writes_emit _).seq fun _ => writes_pure _).congr (by simp) rfl (by simp)

theorem writes_referenceOrNone (here : String) (s : Option Symbol) :
    r.Writes (Plan.referenceOrNone here s) (∀ q, s = some q → r.Good q) [] [] := by
  cases s with
  | some s => exact (writes_reference here s).congr (by simp) rfl (by simp)
  | none => exact (writes_pure _).congr (by simp) rfl (by simp)

theorem Writes.within {wrap : Script → Step} (h : r.Writes body N₁ names K)
    (hN : ∀ out, (∀ s ∈ (wrap out).mentions, r.Good s) ↔ N₂ ∧ ∀ s ∈ Step.mentionsAll out, r.Good s)
    (hL : ∀ out, Step.definitionsAll out = names → (wrap out).definitions = names') :
    r.Writes (Plan.within body wrap) (N₂ ∧ N₁) names' K :=
  Yields.within h hN hL

theorem Writes.block (h : r.Writes body N names K) :
    r.Writes (Plan.block template args body) ((∀ s ∈ Arg.mentionsAll args, r.Good s) ∧ N) [] K :=
  Writes.within h (fun out => by simp [or_imp, forall_and]) fun _ _ => rfl

theorem Writes.lineWith (h : r.Writes body N names K) :
    r.Writes (Plan.lineWith template args body) ((∀ s ∈ Arg.mentionsAll args, r.Good s) ∧ N) [] K := by
  have hall : ∀ out, Arg.mentionsAll (args ++ [.code out]) = Arg.mentionsAll args ++ Step.mentionsAll out := by
    intro out
    induction args with
    | nil => simp
    | cons a args ih => simp [ih]
  exact Writes.within h (fun out => by simp [hall, or_imp, forall_and]) fun _ _ => rfl

theorem Writes.define {d : Declarator} {name : String} (h : r.Writes body N names K) :
    r.Writes (Plan.define d name template args body) ((∀ s ∈ Arg.mentionsAll args, r.Good s) ∧ N) [name] K :=
  Writes.within h (fun out => by simp [or_imp, forall_and]) fun _ _ => rfl

theorem Writes.defineGood {d : Declarator} {name : String} (h : r.Writes body N names K)
    (hargs : ∀ s ∈ Arg.mentionsAll args, r.Good s) : r.Writes (Plan.define d name template args body) N [name] K :=
  h.define.congr (and_iff_right hargs) rfl (List.Subset.refl _)

theorem writes_defineLine {d : Declarator} {name : String} :
    r.Writes (Plan.defineLine d name template args) (∀ s ∈ Arg.mentionsAll args, r.Good s) [name] [] :=
  (writes_emit _).congr (by simp [Step.mentionsAll]) rfl (by simp)

theorem Writes.scope {place : Section} (h : r.Writes body N names K) :
    r.Writes (Plan.scope place body) N names K :=
  Yields.wrapped h (fun _ => rfl) (fun _ => rfl) fun _ h => h

/-! ### Edits -/

theorem Writes.edit {s : Symbol} (h : (r.inside s.ns).Writes body N names K) :
    r.Yields .edits (Plan.edit s body) N (names.map fun name => (s.ns, name)) K fun _ => True := by
  unfold Plan.edit
  split
  · refine Yields.wrapped h (fun _ => rfl) (fun _ => rfl) ?_
    intro out hout
    rw [← hout]
    rfl
  · exact yields_fail _

end Reading

end ClientGen
