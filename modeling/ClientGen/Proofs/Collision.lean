import ClientGen.Proofs.SymbolRank

/-!
# Collisions of names

A lookup registers the names that a symbol declares one by one, and stops at one that belongs to another
id; what it has registered until then stays. `Blocked p m t id e` says where the lookup of `id` from the
table `t` stops: at `id`, or at an id that its symbol is made from, a declared name belongs to another
id, and all that comes before is in order.

* `lookup_kept`: a property of tables that new entries and new names keep is kept by every lookup, and a
  lookup that ends in a collision leaves its id blocked.
* `Blocked.mono`: a blocked id stays blocked, for names never change their owners (`keepsOwners_kept`).
* `Blocked.unique`: it is blocked by one collision only.
-/

namespace ClientGen

/-- Two ids have come to one name. -/
def Error.isCollision : Error → Bool
  | .namingCollision .. => true
  | _ => false

/-- What the first table gives an owner has the same owner in the second. -/
def Table.KeepsOwners (t t' : Table) : Prop := ∀ name id, t.owner? name = some id → t'.owner? name = some id

namespace Provider

variable {p : Provider} {m : Model} {t t' : Table} {id next : ShapeId} {e : Error}

/-- The symbol of the id is its own and declares the name. -/
def Reserves (p : Provider) (m : Model) (id : ShapeId) (name : String × String) : Prop :=
  standsFor? m id = none ∧ ∃ s, p.Denotes m id s ∧ name ∈ s.declarations

/-- **The lookup of the id stops at a name of another id**, with the given collision. -/
inductive Blocked (p : Provider) (m : Model) (t : Table) : ShapeId → Error → Prop where
  | own {id first : ShapeId} {s : Symbol} {before after : List (String × String)} {name : String × String} :
      standsFor? m id = none → p.Denotes m id s → Prepared m id t →
      s.declarations = before ++ name :: after → (∀ n ∈ before, t.owner? n = some id) →
      t.owner? name = some first → first ≠ id → Blocked p m t id (.namingCollision first id name.1 name.2)
  | madeFrom {id next : ShapeId} {e : Error} :
      MadeFrom m id next → Blocked p m t next e → Blocked p m t id e

theorem Blocked.mono (h : p.Blocked m t id e) (hg : t.Grows t') (ho : t.KeepsOwners t') :
    p.Blocked m t' id e := by
  induction h with
  | own hst hden hprep hdecl hbefore howner hne =>
    refine .own hst hden ?_ hdecl (fun n hn => ho n _ (hbefore n hn)) (ho _ _ howner) hne
    intro next hmade
    obtain ⟨s, hs⟩ := hprep next hmade
    exact ⟨s, hg next s hs⟩
  | madeFrom hmade _ ih => exact .madeFrom hmade ih

/-- A blocked id has no entry: its names would be its own. -/
theorem Blocked.not_cached (h : p.Blocked m t id e) (ht : t.Sound p m) : t.cached? id = none := by
  rw [Option.eq_none_iff_forall_ne_some]
  intro s hs
  induction h generalizing s with
  | @own id first s' before after name hst hden _ hdecl _ howner hne =>
    rw [(ht.faithful id s hs).unique hden] at hs
    have hown := ht.owned id s' hs hst name (by rw [hdecl]; simp)
    rw [howner] at hown
    exact hne (Option.some.inj hown)
  | madeFrom hmade _ ih =>
    obtain ⟨s', hs'⟩ := ht.deep _ s _ hs hmade
    exact ih s' hs'

theorem find?_of_owned {names before after : List (String × String)} {name : String × String} {first : ShapeId}
    (hnames : names = before ++ name :: after) (hbefore : ∀ n ∈ before, t.owner? n = some id)
    (howner : t.owner? name = some first) (hne : first ≠ id) :
    names.find? (fun n => t.owner? n != some id) = some name := by
  rw [List.find?_eq_some_iff_append]
  refine ⟨?_, before, after, hnames, ?_⟩
  · rw [howner, bne_iff_ne]
    exact fun h => hne (Option.some.inj h)
  · intro n hn
    rw [hbefore n hn]
    simp

/-- **An id is blocked by one collision only.** -/
theorem Blocked.unique {e' : Error} (h : p.Blocked m t id e) (h' : p.Blocked m t id e') (ht : t.Sound p m) :
    e = e' := by
  induction h with
  | own hst hden hprep hdecl hbefore howner hne =>
    cases h' with
    | own _ hden' _ hdecl' hbefore' howner' hne' =>
      cases hden.unique hden'
      have hname := find?_of_owned hdecl hbefore howner hne
      rw [find?_of_owned hdecl' hbefore' howner' hne'] at hname
      cases hname
      rw [howner] at howner'
      cases howner'
      rfl
    | madeFrom hmade hnext =>
      obtain ⟨s, hs⟩ := hprep _ hmade
      rw [hnext.not_cached ht] at hs
      cases hs
  | madeFrom hmade hnext ih =>
    cases h' with
    | own _ _ hprep =>
      obtain ⟨s, hs⟩ := hprep _ hmade
      rw [hnext.not_cached ht] at hs
      cases hs
    | madeFrom hmade' hnext' =>
      cases hmade.unique hmade'
      exact ih hnext'

/-- The parties to the collision that blocks an id: the second is the id, or one that its symbol is made
from, and declares the name that the first owns. -/
theorem Blocked.parties (h : p.Blocked m t id e) :
    ∃ first second name, e = .namingCollision first second name.1 name.2 ∧ first ≠ second ∧
      Relation.ReflTransGen (MadeFrom m) id second ∧ p.Reserves m second name ∧
      t.owner? name = some first := by
  induction h with
  | own hst hden _ hdecl _ howner hne =>
    refine ⟨_, _, _, rfl, hne, .refl, ⟨hst, _, hden, ?_⟩, howner⟩
    rw [hdecl]
    exact List.mem_append_right _ List.mem_cons_self
  | madeFrom hmade _ ih =>
    obtain ⟨first, second, name, he, hne, hreach, hres, howner⟩ := ih
    exact ⟨first, second, name, he, hne, hreach.head hmade, hres, howner⟩

/-! ### What lookups keep -/

/-- `I` is kept when an id with `Q` is looked up: by the marks, by a new entry and by a new name. -/
structure Kept (p : Provider) (m : Model) (Q : ShapeId → Prop) (I : Table → Prop) : Prop where
  next : ∀ {id next}, Q id → MadeFrom m id next → Q next
  mark : ∀ {t} resolving, I t → I { t with resolving }
  entry : ∀ {t id} s, t.cached? id = none → I t → I { t with cache := t.cache ++ [(id, s)] }
  name : ∀ {t id name}, t.owner? name = none → Q id → p.Reserves m id name → I t →
    I { t with declared := t.declared ++ [(name, id)] }

/-- A failure that keeps `I`, and after which a collision blocks the id. -/
def Fails (p : Provider) (m : Model) (I : Table → Prop) (id : ShapeId) (e : Error) (t : Table) : Prop :=
  I t ∧ (e.isCollision = true → p.Blocked m t id e)

variable {Q : ShapeId → Prop} {I : Table → Prop}

theorem invariant_empty (ht : t.Sound p m) : p.Invariant m {} t := ⟨ht, fun _ _ h => by cases h⟩

/-- A name that is new keeps the property, one that belongs to another id blocks. -/
theorem claim_kept (hI : p.Kept m Q I) (hQ : Q id) {s : Symbol} (hst : standsFor? m id = none)
    (hden : p.Denotes m id s) {done names : List (String × String)} {name : String × String}
    (hdecl : s.declarations = done ++ name :: names) :
    Triple (fun t => (p.Invariant m {} t ∧ Prepared m id t ∧ ∀ n ∈ done, t.owner? n = some id) ∧ I t)
      (Names.claim id name) (fun _ => I) (p.Fails m I id) := by
  have hres : p.Reserves m id name := ⟨hst, s, hden, by rw [hdecl]; simp⟩
  apply Triple.get_bind
  rintro t ⟨⟨-, hprep, hdone⟩, ht⟩
  split
  · rename_i hnew
    rintro t' rfl
    exact hI.name hnew hQ hres ht
  · rename_i first hfirst
    split
    · rintro t' rfl
      exact ht
    · rename_i hne
      rintro t' rfl
      refine ⟨ht, fun _ => .own hst hden hprep hdecl hdone hfirst ?_⟩
      rintro rfl
      exact hne (beq_self_eq_true first)

theorem claims_kept (hI : p.Kept m Q I) (hQ : Q id) {s : Symbol} (hst : standsFor? m id = none)
    (hden : p.Denotes m id s) (names : List (String × String)) : ∀ done, s.declarations = done ++ names →
    Triple (fun t => (p.Invariant m {} t ∧ Prepared m id t ∧ ∀ n ∈ done, t.owner? n = some id) ∧ I t)
      (names.forM (Names.claim id)) (fun _ => I)
      (p.Fails m I id) := by
  induction names with
  | nil => exact fun done _ t ht => ht.2
  | cons name names ih =>
    intro done hdecl
    apply Triple.bind (Q := fun _ t =>
      (p.Invariant m {} t ∧ Prepared m id t ∧ ∀ n ∈ done ++ [name], t.owner? n = some id) ∧ I t)
    · have hkept := (@claim_triple p m id {} name done (Prepared m id) (fun _ _ h => h)).and
        (claim_kept hI hQ hst hden hdecl)
      exact hkept.mono (fun _ h => ⟨h.1, h⟩) (fun _ _ h => h) (fun _ _ h => h.2)
    · intro _
      apply ih (done ++ [name])
      rw [hdecl, List.append_assoc]
      rfl

theorem remember_kept (hI : p.Kept m Q I) (s : Symbol) (E : Error → Table → Prop) :
    Triple I (Names.remember id s) (fun _ => I) E := by
  apply Triple.get_bind
  intro t ht
  split
  · rintro t' rfl
    exact ht
  · rename_i hnew
    rintro t' rfl
    exact hI.entry s hnew ht

/-- Why an id has no symbol, apart from collisions: a target leads nowhere, or a collection holds itself. -/
inductive Refusal : Error → Prop where
  | missing (id : ShapeId) : Refusal (.shapeNotFound id)
  | selfContaining (id : ShapeId) : Refusal (.invalidModel (.selfContaining id))

theorem Refusal.quiet (h : Refusal e) : e.isCollision = false := by
  cases h <;> rfl

theorem convertsWithin_error : ∀ (fuel : Nat) (seen : List ShapeId) (target : ShapeId),
    Naming.convertsWithin m fuel seen target = .error e → Refusal e := by
  intro fuel
  induction fuel with
  | zero =>
    intro seen target h
    cases h
    exact .selfContaining target
  | succ fuel ih =>
    intro seen target h
    unfold Naming.convertsWithin at h
    split at h
    · cases h
      exact .selfContaining target
    · cases hx : m.expect target with
      | error e' =>
        rw [hx] at h
        cases h
        unfold Model.expect at hx
        split at hx
        · cases hx
        · cases hx
          exact .missing target
      | ok shape =>
        rw [hx] at h
        obtain ⟨_, kind, _⟩ := shape
        cases kind with
        | list x | set x | map k x => exact ih _ _ h
        | _ => cases h

theorem shapeSymbol_error {element : Symbol} {kind : Kind}
    (h : p.shapeSymbol m id element kind = .error e) : Refusal e := by
  have hcollection : ∀ name target, Naming.collection p.package m id name element target = .error e →
      Refusal e := by
    intro name target h
    unfold Naming.collection at h
    cases hc : Naming.needsConversion m target with
    | ok c =>
      rw [hc] at h
      cases c <;> cases h
    | error e' =>
      rw [hc] at h
      cases h
      exact convertsWithin_error _ _ _ hc
  cases kind with
  | list x | set x | map k x => exact hcollection _ _ h
  | _ => cases h

/-- The default symbol of an id, where only what it is made from may be in collision. -/
theorem defaultSymbol_kept {lookup : ShapeId → Names Symbol}
    (hl : ∀ next, MadeFrom m id next → Triple (fun t => t.Sound p m ∧ I t) (lookup next) (fun _ => I)
      (p.Fails m I next)) :
    Triple (fun t => t.Sound p m ∧ I t) (p.defaultSymbol m lookup id) (fun _ => I)
      (p.Fails m I id) := by
  have hother : ∀ {e : Error} {t : Table}, e.isCollision = false → I t →
      p.Fails m I id e t :=
    fun he ht => ⟨ht, fun h => by rw [he] at h; cases h⟩
  have hsymbol : ∀ element kind, Triple I (Names.ofExcept (p.shapeSymbol m id element kind)) (fun _ => I)
      (p.Fails m I id) := by
    intro element kind t ht
    cases hsym : p.shapeSymbol m id element kind with
    | ok s => exact ht
    | error e => exact hother (shapeSymbol_error hsym).quiet ht
  refine defaultSymbol_cases p m lookup id ?missing ?variant ?plain ?collection
  case missing => exact fun t ht => hother rfl ht.2
  case variant => exact fun name shape members member _ _ _ _ t ht => ht.2
  case plain => exact fun shape _ _ _ => (hsymbol _ _).pre fun _ h => h.2
  case collection =>
    intro shape x hid hs he
    have hmade : MadeFrom m id x.target := .element hid hs he
    refine Triple.bind ?_ fun element => hsymbol element shape.kind
    refine (hl x.target hmade).mono (fun _ h => h) (fun _ _ h => h) ?_
    exact fun e t h => ⟨h.1, fun hc => .madeFrom hmade (h.2 hc)⟩

/-- Resolving an id keeps the property, or ends in a collision that blocks the id. -/
theorem resolve_kept {lookup : ShapeId → Names Symbol} (hI : p.Kept m Q I) (hQ : Q id)
    (hst : standsFor? m id = none) (hspec : p.LookupSpec m {} lookup)
    (hl : ∀ next, MadeFrom m id next → Triple (fun t => t.Sound p m ∧ I t) (lookup next) (fun _ => I)
      (p.Fails m I next)) :
    Triple (fun t => t.Sound p m ∧ I t) (p.resolve m lookup id) (fun _ => I)
      (p.Fails m I id) := by
  unfold resolve
  apply Triple.get_bind
  intro t ht
  split
  · rintro t' rfl
    exact ⟨ht.2, fun h => by cases h⟩
  apply Triple.bind (Q := fun _ t => t.Sound p m ∧ I t)
  · rintro t' rfl
    exact ⟨ht.1.resolving _, hI.mark _ ht.2⟩
  intro _
  apply Triple.bind
  · apply Triple.tryCatch
    · refine ((defaultSymbol_triple hspec hst).and (defaultSymbol_kept hl)).mono ?_ (fun _ _ h => h)
        (fun _ _ h => h.2)
      exact fun t ht => ⟨invariant_empty ht.1, ht⟩
    · exact fun e t ht => ⟨hI.mark _ ht.1, fun hc => (ht.2 hc).mono (fun _ _ h => h) (fun _ _ h => h)⟩
  intro inner
  -- the symbol is known from here on, and with it the names that are left to register
  apply Triple.bind (Q := fun _ t =>
    ((p.Invariant m {} t ∧ Prepared m id t) ∧ I t) ∧ p.Denotes m id (p.decorate id inner))
  · exact fun t ht => ⟨⟨⟨⟨ht.1.1.1.1.resolving _, ht.1.1.1.2⟩, ht.1.1.2⟩, hI.mark _ ht.2⟩, ht.1.2⟩
  intro _
  apply Triple.of_and
  intro hden
  apply Triple.bind (Q := fun _ => I)
  · refine (claims_kept hI hQ hst hden _ [] rfl).pre ?_
    exact fun t ht => ⟨⟨ht.1.1, ht.1.2, by simp⟩, ht.2⟩
  · exact fun _ => remember_kept hI _ _

/-- **Every lookup keeps the property**, and a collision that it ends in blocks its id. -/
theorem lookup_kept (hI : p.Kept m Q I) : ∀ fuel id, Q id →
    Triple (fun t => t.Sound p m ∧ I t) (p.lookup m fuel id) (fun _ => I)
      (p.Fails m I id) := by
  intro fuel
  induction fuel with
  | zero => exact fun id _ t ht => ⟨ht.2, fun h => by cases h⟩
  | succ fuel ih =>
    intro id hQ
    unfold lookup
    apply Triple.get_bind
    intro t ht
    split
    · rintro t' rfl
      exact ht.2
    · split
      · rename_i member hst
        have hmade : MadeFrom m id member.target := .standsFor hst
        refine Triple.bind (Q := fun _ => I) ?_ fun s => remember_kept hI s _
        refine (ih member.target (hI.next hQ hmade)).mono (fun t' h => h ▸ ht) (fun _ _ h => h) ?_
        exact fun e t h => ⟨h.1, fun hc => .madeFrom hmade (h.2 hc)⟩
      · rename_i hst
        have hres := resolve_kept hI hQ hst (lookup_triple p m {} fuel) fun next hmade =>
          ih next (hI.next hQ hmade)
        exact hres.pre fun t' h => h ▸ ht

/-- Names keep the owner that they have at `t₀`. -/
theorem keepsOwners_kept (t₀ : Table) : p.Kept m (fun _ => True) t₀.KeepsOwners where
  next _ _ := trivial
  mark _ h := h
  entry _ _ h := h
  name hnew _ _ h := by
    intro name' id' howner
    rw [Table.owner?_append hnew, if_neg ?_]
    · exact h name' id' howner
    · rintro rfl
      rw [h _ id' howner] at hnew
      cases hnew

end Provider

end ClientGen
