import ClientGen.Proofs.Triple
import ClientGen.Proofs.WalkSet

/-!
# What the symbol table holds

`Denotes p m id s` says, without any table, which symbol an id has: that of its target for a member that
stands for it, else the one made from the shape and, for a collection, from the symbol of its elements.

* `Denotes.unique`: an id has at most one symbol.
* `lookup_triple`: a lookup gives the symbol that the id denotes and remembers it, and the table stays
  sound whether or not the lookup succeeds.
-/

namespace ClientGen

namespace Provider

/-- The symbol that a shape has by default, given the symbol of the values it holds. -/
def shapeSymbol (p : Provider) (m : Model) (id : ShapeId) (element : Symbol) : Kind → Except Error Symbol
  | .struct _ => .ok (Naming.valueClass p.package id)
  | .enumeration _ => .ok (Naming.valueClass p.package id)
  | .union _ => .ok (Naming.unionType p.package id)
  | .list e => Naming.collection p.package m id ("list[" ++ element.name ++ "]") element e.target
  | .set e => Naming.collection p.package m id ("set[" ++ element.name ++ "]") element e.target
  | .map _ v => Naming.collection p.package m id ("dict[str, " ++ element.name ++ "]") element v.target
  | .scalar type =>
    .ok ((Naming.scalar type).withProperty Symbol.schemaRole (Naming.schema p.package id))
  | .operation _ => .ok (Naming.operationMethod p.package id)
  | .service _ => .ok (Naming.serviceClient p.package id)

/-- **The symbol of an id**, as a fact about the model alone. -/
inductive Denotes (p : Provider) (m : Model) : ShapeId → Symbol → Prop where
  | standsFor {id : ShapeId} {member : Member} {s : Symbol} :
      standsFor? m id = some member → Denotes p m member.target s → Denotes p m id s
  | variant {id : ShapeId} {name : String} {shape : Shape} {members : List Member} {member : Member} :
      id.member = some name → m.get? id = some shape → shape.kind = .union members →
      shape.member? name = some member →
      Denotes p m id (p.decorate id (Naming.variant p.package shape.id name))
  | plain {id : ShapeId} {shape : Shape} {s : Symbol} :
      id.member = none → m.get? id = some shape → shape.kind.element? = none →
      p.shapeSymbol m id default shape.kind = .ok s → Denotes p m id (p.decorate id s)
  | collection {id : ShapeId} {shape : Shape} {e : Member} {element s : Symbol} :
      id.member = none → m.get? id = some shape → shape.kind.element? = some e →
      Denotes p m e.target element → p.shapeSymbol m id element shape.kind = .ok s →
      Denotes p m id (p.decorate id s)

variable {p : Provider} {m : Model} {id : ShapeId} {shape : Shape}

/-- Only ids of members stand for others. -/
theorem standsFor?_of_no_member (h : id.member = none) : standsFor? m id = none := by
  unfold standsFor? Model.member?
  rw [h]
  rfl

theorem standsFor?_eq_some {member : Member} (h : standsFor? m id = some member) :
    ∃ name shape, id.member = some name ∧ m.get? id = some shape ∧ shape.member? name = some member := by
  unfold standsFor? Model.member? at h
  cases hname : id.member with
  | none => simp [hname] at h
  | some name =>
    cases hs : m.get? id with
    | none => simp [hname, hs] at h
    | some shape =>
      cases hm : shape.member? name with
      | none => simp [hname, hs, hm] at h
      | some found =>
        refine ⟨name, shape, rfl, rfl, ?_⟩
        simp only [hname, hs, hm, Option.bind_eq_bind, Option.bind_some] at h
        split at h
        · cases h
        · exact hm.trans h

theorem standsFor?_of_union {members : List Member} (hs : m.get? id = some shape)
    (hk : shape.kind = .union members) : standsFor? m id = none := by
  unfold standsFor?
  cases hm : m.member? id with
  | none => rfl
  | some member => simp [hs, hk]

theorem Denotes.get? {s : Symbol} (h : p.Denotes m id s) : ∃ shape, m.get? id = some shape := by
  cases h with
  | standsFor hst =>
    obtain ⟨name, shape, -, hs, -⟩ := standsFor?_eq_some hst
    exact ⟨shape, hs⟩
  | variant _ hs | plain _ hs | collection _ hs => exact ⟨_, hs⟩

/-- **An id has at most one symbol.** -/
theorem Denotes.unique {s s' : Symbol} (h : p.Denotes m id s) (h' : p.Denotes m id s') : s = s' := by
  -- each rule has a premise that excludes the others, so both symbols are made by the same rule
  induction h generalizing s' with
  | standsFor hst _ ih =>
    cases h' with
    | standsFor hst' ht' =>
      rw [hst] at hst'
      cases hst'
      exact ih ht'
    | variant hid hs hk hm => rw [standsFor?_of_union hs hk] at hst; cases hst
    | plain hid | collection hid => rw [standsFor?_of_no_member hid] at hst; cases hst
  | variant hid hs hk hm =>
    cases h' with
    | standsFor hst' => rw [standsFor?_of_union hs hk] at hst'; cases hst'
    | variant hid' hs' =>
      rw [hid] at hid'
      rw [hs] at hs'
      cases hid'
      cases hs'
      rfl
    | plain hid' | collection hid' => rw [hid] at hid'; cases hid'
  | plain hid hs he hsym =>
    cases h' with
    | standsFor hst' => rw [standsFor?_of_no_member hid] at hst'; cases hst'
    | variant hid' => rw [hid] at hid'; cases hid'
    | plain hid' hs' he' hsym' =>
      rw [hs] at hs'
      cases hs'
      rw [hsym] at hsym'
      cases hsym'
      rfl
    | collection hid' hs' he' =>
      rw [hs] at hs'
      cases hs'
      rw [he] at he'
      cases he'
  | collection hid hs he _ hsym ih =>
    cases h' with
    | standsFor hst' => rw [standsFor?_of_no_member hid] at hst'; cases hst'
    | variant hid' => rw [hid] at hid'; cases hid'
    | plain hid' hs' he' =>
      rw [hs] at hs'
      cases hs'
      rw [he] at he'
      cases he'
    | collection hid' hs' he' hel' hsym' =>
      rw [hs] at hs'
      cases hs'
      rw [he] at he'
      cases he'
      rw [← ih hel', hsym] at hsym'
      cases hsym'
      rfl

theorem defaultSymbol_shape (lookup : ShapeId → Names Symbol) (hid : id.member = none)
    (hs : m.get? id = some shape) :
    p.defaultSymbol m lookup id = (match shape.kind.element? with
      | none => Names.ofExcept (p.shapeSymbol m id default shape.kind)
      | some e => lookup e.target >>= fun element =>
        Names.ofExcept (p.shapeSymbol m id element shape.kind)) := by
  unfold defaultSymbol
  rw [Model.expect_eq_ok.2 hs, hid]
  obtain ⟨_, kind, _⟩ := shape
  cases kind <;> rfl

/-- The default symbol of a member: only those of unions have one. -/
theorem defaultSymbol_member (lookup : ShapeId → Names Symbol) {name : String} (hid : id.member = some name)
    (hs : m.get? id = some shape) :
    p.defaultSymbol m lookup id = (match shape.kind, shape.member? name with
      | .union _, some _ => pure (Naming.variant p.package shape.id name)
      | _, _ => throw (.shapeNotFound id)) := by
  unfold defaultSymbol
  rw [Model.expect_eq_ok.2 hs, hid]
  rfl

/-- **What a default symbol can be**: refused, the class of a variant, or that of a shape, which for a collection is made
from the symbol of its elements. -/
@[elab_as_elim]
theorem defaultSymbol_cases {motive : Names Symbol → Prop} (p : Provider) (m : Model) (lookup : ShapeId → Names Symbol)
    (id : ShapeId)
    (missing : motive (throw (.shapeNotFound id)))
    (variant : ∀ name shape members member, id.member = some name → m.get? id = some shape →
      shape.kind = .union members → shape.member? name = some member →
      motive (pure (Naming.variant p.package shape.id name)))
    (plain : ∀ shape, id.member = none → m.get? id = some shape → shape.kind.element? = none →
      motive (Names.ofExcept (p.shapeSymbol m id default shape.kind)))
    (collection : ∀ shape e, id.member = none → m.get? id = some shape → shape.kind.element? = some e →
      motive (lookup e.target >>= fun element => Names.ofExcept (p.shapeSymbol m id element shape.kind))) :
    motive (p.defaultSymbol m lookup id) := by
  cases hs : m.get? id with
  | none =>
    have hx : m.expect id = .error (.shapeNotFound id) := by unfold Model.expect; rw [hs]
    unfold defaultSymbol
    rw [hx]
    exact missing
  | some shape =>
    cases hid : id.member with
    | some name =>
      rw [defaultSymbol_member lookup hid hs]
      split
      · exact variant name shape _ _ hid hs ‹_› ‹_›
      · exact missing
    | none =>
      rw [defaultSymbol_shape lookup hid hs]
      cases he : shape.kind.element? with
      | none => exact plain shape hid hs he
      | some e => exact collection shape e hid hs he

/-- The id whose symbol the symbol of `id` is made from. -/
inductive MadeFrom (m : Model) : ShapeId → ShapeId → Prop where
  | standsFor {id : ShapeId} {member : Member} : standsFor? m id = some member → MadeFrom m id member.target
  | element {id : ShapeId} {shape : Shape} {e : Member} : id.member = none → m.get? id = some shape →
      shape.kind.element? = some e → MadeFrom m id e.target

theorem MadeFrom.unique {next next' : ShapeId} (h : MadeFrom m id next) (h' : MadeFrom m id next') :
    next = next' := by
  cases h with
  | standsFor hst =>
    cases h' with
    | standsFor hst' =>
      rw [hst] at hst'
      cases hst'
      rfl
    | element hid => rw [standsFor?_of_no_member hid] at hst; cases hst
  | element hid hs he =>
    cases h' with
    | standsFor hst' => rw [standsFor?_of_no_member hid] at hst'; cases hst'
    | element _ hs' he' =>
      rw [hs] at hs'
      cases hs'
      rw [he] at he'
      cases he'
      rfl

end Provider

namespace Table

/-- **What holds of every table** that lookups make from an empty one. -/
structure Sound (p : Provider) (m : Model) (t : Table) : Prop where
  /-- Every entry is the symbol that its id denotes. -/
  faithful : ∀ id s, t.cached? id = some s → p.Denotes m id s
  /-- The names that an entry declares belong to its id. -/
  owned : ∀ id s, t.cached? id = some s → Provider.standsFor? m id = none →
    ∀ name ∈ s.declarations, t.owner? name = some id
  /-- What an entry is made from has an entry. -/
  deep : ∀ id s next, t.cached? id = some s → Provider.MadeFrom m id next → ∃ s', t.cached? next = some s'

/-- What the first table remembers, the second one remembers too. -/
def Grows (t t' : Table) : Prop := ∀ id s, t.cached? id = some s → t'.cached? id = some s

theorem Grows.refl (t : Table) : t.Grows t := fun _ _ h => h

theorem Grows.trans {t t' t'' : Table} (h : t.Grows t') (h' : t'.Grows t'') : t.Grows t'' :=
  fun id s hs => h' id s (h id s hs)

theorem sound_empty (p : Provider) (m : Model) : Sound p m {} := by
  constructor <;> intro id s <;> simp [cached?]

theorem cached?_append {t : Table} {id : ShapeId} (hnew : t.cached? id = none) (s : Symbol) (id' : ShapeId) :
    Table.cached? { t with cache := t.cache ++ [(id, s)] } id' = if id = id' then some s else t.cached? id' := by
  unfold cached? at *
  rw [List.find?_append]
  by_cases h : id = id'
  · subst h
    rw [Option.map_eq_none_iff] at hnew
    simp [hnew]
  · simp [h]

theorem owner?_append {t : Table} {name : String × String} (hnew : t.owner? name = none) (id : ShapeId)
    (name' : String × String) :
    Table.owner? { t with declared := t.declared ++ [(name, id)] } name' =
      if name = name' then some id else t.owner? name' := by
  unfold owner? at *
  rw [List.find?_append]
  by_cases h : name = name'
  · subst h
    rw [Option.map_eq_none_iff] at hnew
    simp [hnew]
  · simp [h]

variable {p : Provider} {m : Model} {t : Table} {id : ShapeId}

theorem Sound.resolving (h : t.Sound p m) (r : List ShapeId) : Sound p m { t with resolving := r } :=
  ⟨h.faithful, h.owned, h.deep⟩

theorem Sound.register (h : t.Sound p m) {name : String × String} (hnew : t.owner? name = none) :
    Sound p m { t with declared := t.declared ++ [(name, id)] } := by
  refine ⟨h.faithful, ?_, h.deep⟩
  intro id' s hs hst name' hn
  have hold := h.owned id' s hs hst name' hn
  rw [owner?_append hnew, if_neg ?_]
  · exact hold
  · rintro rfl
    rw [hnew] at hold
    cases hold

theorem grows_append (hnew : t.cached? id = none) (s : Symbol) :
    t.Grows { t with cache := t.cache ++ [(id, s)] } := by
  intro id' s' hold
  rw [cached?_append hnew, if_neg ?_]
  · exact hold
  · rintro rfl
    rw [hnew] at hold
    cases hold

/-- An entry may be added if it is right, owns its names, and what it is made from is there. -/
theorem Sound.add (h : t.Sound p m) (hnew : t.cached? id = none) {s : Symbol} (hs : p.Denotes m id s)
    (hown : Provider.standsFor? m id = none → ∀ name ∈ s.declarations, t.owner? name = some id)
    (hdeep : ∀ next, Provider.MadeFrom m id next → ∃ s', t.cached? next = some s') :
    Sound p m { t with cache := t.cache ++ [(id, s)] } := by
  have hg := grows_append hnew s
  constructor
  · intro id' s' h'
    rw [cached?_append hnew] at h'
    split at h'
    · rename_i he
      cases h'
      exact he ▸ hs
    · exact h.faithful id' s' h'
  · intro id' s' h' hst name hn
    rw [cached?_append hnew] at h'
    split at h'
    · rename_i he
      subst he
      cases h'
      exact hown hst name hn
    · exact h.owned id' s' h' hst name hn
  · intro id' s' next h' hmade
    rw [cached?_append hnew] at h'
    split at h'
    · rename_i he
      subst he
      obtain ⟨s'', hs''⟩ := hdeep next hmade
      exact ⟨s'', hg next s'' hs''⟩
    · obtain ⟨s'', hs''⟩ := h.deep id' s' next h' hmade
      exact ⟨s'', hg next s'' hs''⟩

end Table

namespace Provider

/-- What holds throughout the lookups that start from `t₀`. -/
def Invariant (p : Provider) (m : Model) (t₀ t : Table) : Prop := t.Sound p m ∧ t₀.Grows t

variable {p : Provider} {m : Model} {id : ShapeId} {t₀ : Table}

/-- A name that is registered belongs to the id, and earlier names of the id stay with it. -/
theorem claim_triple (name : String × String) (done : List (String × String)) (P : Table → Prop)
    (hP : ∀ t declared, P t → P { t with declared }) :
    Triple (fun t => p.Invariant m t₀ t ∧ P t ∧ ∀ n ∈ done, t.owner? n = some id) (Names.claim id name)
      (fun _ t => p.Invariant m t₀ t ∧ P t ∧ ∀ n ∈ done ++ [name], t.owner? n = some id)
      (fun _ => p.Invariant m t₀) := by
  apply Triple.get_bind
  rintro t ⟨ht, hPt, hdone⟩
  split
  · rename_i hnew
    rintro t' rfl
    refine ⟨⟨ht.1.register hnew, ht.2⟩, hP _ _ hPt, ?_⟩
    intro n hn
    rw [Table.owner?_append hnew]
    split
    · rfl
    · rename_i hne
      rcases List.mem_append.1 hn with hn | hn
      · exact hdone n hn
      · exact absurd (List.mem_singleton.1 hn).symm hne
  · rename_i first hfirst
    split
    · rename_i he
      rintro t' rfl
      refine ⟨ht, hPt, ?_⟩
      intro n hn
      rcases List.mem_append.1 hn with hn | hn
      · exact hdone n hn
      · rw [List.mem_singleton.1 hn, hfirst, eq_of_beq he]
    · rintro t' rfl
      exact ht

theorem claims_triple (names : List (String × String)) (P : Table → Prop)
    (hP : ∀ t declared, P t → P { t with declared }) : ∀ done,
    Triple (fun t => p.Invariant m t₀ t ∧ P t ∧ ∀ n ∈ done, t.owner? n = some id)
      (names.forM (Names.claim id))
      (fun _ t => p.Invariant m t₀ t ∧ P t ∧ ∀ n ∈ done ++ names, t.owner? n = some id)
      (fun _ => p.Invariant m t₀) := by
  induction names with
  | nil =>
    intro done t ht
    rw [List.append_nil]
    exact ht
  | cons name names ih =>
    intro done
    refine (claim_triple name done P hP).bind fun _ => ?_
    have := ih (done ++ [name])
    rw [List.append_assoc] at this
    exact this

/-- The symbols that an id's symbol is made from are remembered. -/
def Prepared (m : Model) (id : ShapeId) (t : Table) : Prop :=
  ∀ next, MadeFrom m id next → ∃ s, t.cached? next = some s

theorem remember_triple {s : Symbol} (hs : p.Denotes m id s) :
    Triple (fun t => p.Invariant m t₀ t ∧ Prepared m id t ∧
        (standsFor? m id = none → ∀ n ∈ s.declarations, t.owner? n = some id))
      (Names.remember id s)
      (fun r t => p.Invariant m t₀ t ∧ p.Denotes m id r ∧ t.cached? id = some r)
      (fun _ => p.Invariant m t₀) := by
  apply Triple.get_bind
  rintro t ⟨ht, hprep, hown⟩
  split
  · rename_i before hb
    rintro t' rfl
    exact ⟨ht, ht.1.faithful id before hb, hb⟩
  · rename_i hnew
    rintro t' rfl
    refine ⟨⟨ht.1.add hnew hs hown hprep, ht.2.trans (Table.grows_append hnew s)⟩, hs, ?_⟩
    show Table.cached? _ id = _
    rw [Table.cached?_append hnew, if_pos rfl]

/-- A lookup gives what the id denotes and remembers it; its failure keeps the invariant. -/
def LookupSpec (p : Provider) (m : Model) (t₀ : Table) (lookup : ShapeId → Names Symbol) : Prop :=
  ∀ id, Triple (p.Invariant m t₀) (lookup id)
    (fun s t => p.Invariant m t₀ t ∧ p.Denotes m id s ∧ t.cached? id = some s) (fun _ => p.Invariant m t₀)

/-- The default symbol of an id that stands for itself, decorated, is what it denotes. -/
theorem defaultSymbol_triple {lookup : ShapeId → Names Symbol} (hl : p.LookupSpec m t₀ lookup)
    (hst : standsFor? m id = none) :
    Triple (p.Invariant m t₀) (p.defaultSymbol m lookup id)
      (fun s t => (p.Invariant m t₀ t ∧ Prepared m id t) ∧ p.Denotes m id (p.decorate id s))
      (fun _ => p.Invariant m t₀) := by
  -- an id that stands for itself is made from nothing, or from the element of its shape
  have hmade : ∀ next, MadeFrom m id next → id.member = none ∧ ∀ shape, m.get? id = some shape →
      shape.kind.element? ≠ none := by
    rintro _ (hst' | ⟨hid, hs, he⟩)
    · rw [hst] at hst'
      cases hst'
    · refine ⟨hid, fun shape hs' => ?_⟩
      rw [hs] at hs'
      cases hs'
      simp [he]
  refine defaultSymbol_cases p m lookup id ?missing ?variant ?plain ?collection
  case missing => exact fun t ht => ht
  case variant =>
    intro name shape members member hid hs hk hm t ht
    refine ⟨⟨ht, fun next h => ?_⟩, .variant hid hs hk hm⟩
    rw [(hmade next h).1] at hid
    cases hid
  case plain =>
    intro shape hid hs he t ht
    cases hsym : p.shapeSymbol m id default shape.kind with
    | ok s => exact ⟨⟨ht, fun next h => absurd he ((hmade next h).2 shape hs)⟩, .plain hid hs he hsym⟩
    | error e => exact ht
  case collection =>
    intro shape e hid hs he
    apply (hl e.target).bind
    rintro element t ⟨ht, hel, hc⟩
    cases hsym : p.shapeSymbol m id element shape.kind with
    | ok s =>
      refine ⟨⟨ht, fun next h => ?_⟩, .collection hid hs he hel hsym⟩
      rw [h.unique (.element hid hs he)]
      exact ⟨element, hc⟩
    | error e => exact ht

theorem resolve_triple {lookup : ShapeId → Names Symbol} (hl : p.LookupSpec m t₀ lookup)
    (hst : standsFor? m id = none) :
    Triple (p.Invariant m t₀) (p.resolve m lookup id)
      (fun s t => p.Invariant m t₀ t ∧ p.Denotes m id s ∧ t.cached? id = some s)
      (fun _ => p.Invariant m t₀) := by
  unfold resolve
  apply Triple.get_bind
  intro t ht
  split
  · exact fun t' h => h ▸ ht
  -- the mark on the id, and its removal, change nothing that the invariant looks at
  apply Triple.bind (Q := fun _ => p.Invariant m t₀)
  · rintro t' rfl
    exact ⟨ht.1.resolving _, ht.2⟩
  intro _
  apply Triple.bind
  · apply Triple.tryCatch (defaultSymbol_triple hl hst)
    exact fun e t ht => ⟨ht.1.resolving _, ht.2⟩
  intro inner
  apply Triple.of_and
  intro hden
  apply Triple.bind (Q := fun _ t => p.Invariant m t₀ t ∧ Prepared m id t)
  · exact fun t ht => ⟨⟨ht.1.1.resolving _, ht.1.2⟩, ht.2⟩
  intro _
  apply Triple.bind
  · refine (claims_triple _ (Prepared m id) (fun _ _ h => h) []).pre ?_
    exact fun t ht => ⟨ht.1, ht.2, by simp⟩
  intro _
  exact (remember_triple hden).pre fun t ht => ⟨ht.1, ht.2.1, fun _ => ht.2.2⟩

/-- **Every lookup**, however deep it may nest, gives what its id denotes. -/
theorem lookup_triple (p : Provider) (m : Model) (t₀ : Table) :
    ∀ fuel, p.LookupSpec m t₀ (p.lookup m fuel) := by
  intro fuel
  induction fuel with
  | zero => exact fun id t ht => ht
  | succ fuel ih =>
    intro id
    unfold lookup
    apply Triple.get_bind
    intro t ht
    split
    · rename_i s hs
      exact fun t' h => h ▸ ⟨ht, ht.1.faithful id s hs, hs⟩
    · split
      · rename_i member hst
        apply Triple.bind
        · exact (ih member.target).pre fun t' h => h ▸ ht
        rintro s t ⟨ht, hs, hc⟩
        refine remember_triple (.standsFor hst hs) t ⟨ht, ?_, fun h => ?_⟩
        · rintro next (h | ⟨hid, -⟩)
          · rw [hst] at h
            cases h
            exact ⟨s, hc⟩
          · rw [standsFor?_of_no_member hid] at hst
            cases hst
        · rw [hst] at h
          cases h
      · rename_i hst
        exact (resolve_triple ih hst).pre fun t' h => h ▸ ht

theorem symbol_keeps {t : Table} (ht : t.Sound p m) (id : ShapeId) :
    (((p.symbol m id).run t).2).Sound p m ∧ t.Grows ((p.symbol m id).run t).2 := by
  have h := (lookup_triple p m t (depth m) id).mono (fun _ h => h) (fun _ _ h => h.1) (fun _ _ h => h)
  exact h.of_run ⟨ht, .refl t⟩

theorem symbol_ok {t : Table} (ht : t.Sound p m) {s : Symbol} (h : ((p.symbol m id).run t).1 = .ok s) :
    p.Denotes m id s ∧ (((p.symbol m id).run t).2).cached? id = some s :=
  ((lookup_triple p m t (depth m) id).of_run_ok ⟨ht, .refl t⟩ h).2

end Provider

end ClientGen
