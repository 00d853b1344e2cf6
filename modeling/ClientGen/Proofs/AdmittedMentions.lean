import ClientGen.Proofs.DeclarationClosure
import ClientGen.Proofs.HeldNames

/-!
# What modules mention is what they may have

Whatever a module of a package mentions brings names into it that are the same in every package, or that come from
types, schemas and operations of the model.

* `Context.admits_denoted`: so it is for the symbols of ids, where types of the model are used.
* `Run.edits_admit`: so it is for all that the edits of a run mention.
-/

namespace ClientGen

open Naming Package Text

/-- **What a mention of the symbol brings into the module is among the names that it may have.** -/
def Context.Admits (cx : Context) (ns : String) (s : Symbol) : Prop :=
  ∀ sub ∈ submodules, ns = cx.package ++ "." ++ sub → ∀ c ∈ s.closure, c.isBuiltin = false → c.ns ≠ ns →
    cx.Holds sub c.ns c.importedName

/-- A run in which symbols are good where they are admitted. -/
@[reducible] def Reading.admitting (cx : Context) : Reading := ⟨cx, "", cx.Admits⟩

@[simp] theorem Symbol.withProperty_importedName (s : Symbol) (role : String) (helper : Symbol) :
    (s.withProperty role helper).importedName = s.importedName := rfl

@[simp] theorem declared_importedName (package name sub : String) :
    (declared package name sub).importedName = name := rfl

namespace Context

variable {cx : Context} {ns sub : String} {s : Symbol}

theorem admits_elsewhere (h : ns ∉ modules cx.package) : cx.Admits ns s := by
  rintro sub hsub rfl
  exact absurd (List.mem_map.2 ⟨sub, hsub, rfl⟩) h

theorem admits_of_holds (h : ∀ c ∈ s.closure, c.isBuiltin = false → c.ns ≠ cx.package ++ "." ++ sub →
    cx.Holds sub c.ns c.importedName) : cx.Admits (cx.package ++ "." ++ sub) s := by
  intro sub' _ hns
  rw [module_inj hns] at h ⊢
  exact h

theorem admits_plain (hr : s.references = []) (h : s.ns ≠ cx.package ++ "." ++ sub → cx.Holds sub s.ns s.importedName) :
    cx.Admits (cx.package ++ "." ++ sub) s := by
  refine admits_of_holds fun c hc _ hne => ?_
  rw [Symbol.closure_eq, hr, Symbol.closure.closures, List.mem_singleton] at hc
  subst hc
  exact h hne

theorem admits_local (hr : s.references = []) (h : s.ns = cx.package ++ "." ++ sub) :
    cx.Admits (cx.package ++ "." ++ sub) s :=
  admits_plain hr fun hne => absurd h hne

theorem admits_foreign (hsub : sub ∈ submodules) (h : s ∈ foreignImports sub) :
    cx.Admits (cx.package ++ "." ++ sub) s := by
  have hall : ∀ sub ∈ submodules, ∀ s ∈ foreignImports sub, (s.references.isEmpty && s.localName.isNone) = true := by
    decide +kernel
  have hs := hall sub hsub s h
  rw [Bool.and_eq_true, List.isEmpty_iff, Option.isNone_iff_eq_none] at hs
  refine admits_plain hs.1 fun _ => .fixed (List.mem_append_left _ (List.mem_map.2 ⟨s, h, ?_⟩))
  rw [Symbol.importedName, hs.2]
  rfl

theorem admits_own {home name : String} (h : (home, name) ∈ ownNames sub) :
    cx.Admits (cx.package ++ "." ++ sub) (declared cx.package name home) :=
  admits_plain rfl fun _ => .fixed (List.mem_append_right _ (List.mem_map.2 ⟨(home, name), h, rfl⟩))

theorem admits_builtin (name : String) : cx.Admits (cx.package ++ "." ++ sub) (.builtin name) := by
  refine admits_of_holds fun c hc hb _ => ?_
  rw [Symbol.closure_eq, show (Symbol.builtin name).references = [] from rfl, Symbol.closure.closures,
    List.mem_singleton] at hc
  subst hc
  cases hb

/-! ### The symbols of ids -/

/-- The symbol is a builtin, one that scalars have, or given by the model. -/
def IsType (cx : Context) (c : Symbol) : Prop :=
  c.isBuiltin = true ∨ (∃ scalar ∈ [Library.decimal, Library.datetime, Library.document],
    (c.ns, c.importedName) = (scalar.ns, scalar.name)) ∨
      ∃ home, cx.Gives home c.importedName ∧ c.ns = cx.package ++ "." ++ home

theorem isType_given {home name : String} (h : cx.Gives home name) (hns : s.ns = cx.package ++ "." ++ home)
    (hname : s.importedName = name) : cx.IsType s :=
  .inr (.inr ⟨home, hname ▸ h, hns⟩)

theorem isType_scalar {type : Scalar} (h : s.ns = (scalar type).ns)
    (hname : s.importedName = (scalar type).importedName) :
    cx.IsType s := by
  have hscalar : ∀ t ∈ [Library.decimal, Library.datetime, Library.document], scalar type = t → t.localName = none →
      cx.IsType s := by
    intro t ht heq hlocal
    refine .inr (.inl ⟨t, ht, ?_⟩)
    rw [h, hname, heq, Symbol.importedName, hlocal]
    rfl
  cases type with
  | bigDecimal => exact hscalar Library.decimal (by simp) rfl rfl
  | timestamp => exact hscalar Library.datetime (by simp) rfl rfl
  | document => exact hscalar Library.document (by simp) rfl rfl
  | _ =>
    left
    rw [Symbol.isBuiltin, h]
    rfl

variable {id : ShapeId}

theorem isType_plain {shape : Shape} (hs : cx.model.get? id = some shape) (he : shape.kind.element? = none)
    (h : Provider.shapeSymbol { package := cx.package } cx.model id default shape.kind = .ok s) :
    s.references = [] ∧ cx.IsType s := by
  cases hk : shape.kind <;> rw [hk] at h he
  case list | set | map => cases he
  case struct | enumeration =>
    cases h
    exact ⟨rfl, isType_given (.valueClass hs (by rw [hk]; rfl)) rfl (by simp [valueClass, modelClass])⟩
  case union =>
    cases h
    exact ⟨rfl, isType_given (.valueClass hs (by rw [hk]; rfl)) rfl (by simp [unionType, modelClass])⟩
  case scalar type =>
    cases h
    exact ⟨by cases type <;> rfl, isType_scalar (Symbol.withProperty_ns _ _ _) (Symbol.withProperty_importedName _ _ _)⟩
  case operation =>
    cases h
    exact ⟨rfl, isType_given (.method hs hk) rfl (declared_importedName _ _ _)⟩
  case service =>
    cases h
    exact ⟨rfl, isType_given (.client hs hk) rfl (declared_importedName _ _ _)⟩

/-- **The symbol of an id is made of types.** -/
theorem isType_of_denotes (hcx : cx.Standard) (h : cx.provider.Denotes cx.model id s) :
    ∀ c ∈ s.closure, cx.IsType c := by
  rw [hcx.provider] at h
  induction h with
  | standsFor _ _ ih => exact ih
  | variant hid hs hk hm =>
    intro c hc
    rw [Symbol.closure_eq] at hc
    cases List.mem_singleton.1 hc
    exact isType_given (.variant hs hk hm) rfl (declared_importedName _ _ _)
  | @plain _ _ s hid hs he hk =>
    obtain ⟨hr, htype⟩ := isType_plain hs he hk
    change ∀ c ∈ s.closure, cx.IsType c
    rw [Symbol.closure_eq, hr]
    simpa [Symbol.closure.closures] using htype
  | @collection _ _ e element s hid hs he _ hk ih =>
    have hform := shapeSymbol_collection he hk
    change ∀ c ∈ s.closure, cx.IsType c
    rw [Symbol.closure_eq, hform.references, List.forall_mem_cons]
    refine ⟨.inl ?_, by simpa [Symbol.closure.closures] using ih⟩
    rw [Symbol.isBuiltin, hform.ns]
    rfl

/-- **Modules that use types of the model admit the symbols of ids.** -/
theorem admits_denoted (hcx : cx.Standard) (hsub : sub ∈ typeUsers) (h : cx.provider.Denotes cx.model id s) :
    cx.Admits (cx.package ++ "." ++ sub) s := by
  have hscalars : ∀ sub ∈ typeUsers, ∀ t ∈ [Library.decimal, Library.datetime, Library.document],
      (t.ns, t.name) ∈ (foreignImports sub).map fun s => (s.ns, s.name) := by decide +kernel
  refine admits_of_holds fun c hc hbuiltin _ => ?_
  rcases isType_of_denotes hcx h c hc with hb | ⟨t, ht, heq⟩ | ⟨home, hgives, hns⟩
  · rw [hb] at hbuiltin
    cases hbuiltin
  · refine .fixed (List.mem_append_left _ ?_)
    rw [heq]
    exact hscalars sub hsub t ht
  · rw [hns]
    exact .given hsub hgives

theorem schema_of_property (hcx : cx.Standard) (h : cx.provider.Denotes cx.model id s) {helper : Symbol}
    (hp : s.property? Symbol.schemaRole = some helper) :
    ∃ id shape, cx.model.get? id = some shape ∧ helper = schema cx.package id := by
  have hshape : ∀ {id : ShapeId} {shape : Shape} {s : Symbol}, cx.provider.Denotes cx.model id s → id.member = none →
      cx.model.get? id = some shape → s.property? Symbol.schemaRole = some helper →
      ∃ id shape, cx.model.get? id = some shape ∧ helper = schema cx.package id := by
    intro id shape s hden hid hs hp
    rw [hcx.schema? hden hid hs] at hp
    split at hp
    · exact ⟨id, shape, hs, (Option.some.inj hp).symm⟩
    · cases hp
  induction h with
  | standsFor _ _ ih => exact ih hp
  | variant _ _ _ _ =>
    rw [hcx.provider] at hp
    cases hp
  | plain hid hs he hk => exact hshape (.plain hid hs he hk) hid hs hp
  | collection hid hs he hden hk _ => exact hshape (.collection hid hs he hden hk) hid hs hp

theorem converter_of_property (hcx : cx.Standard) (h : cx.provider.Denotes cx.model id s) {role : String}
    (hrole : role = Symbol.serializerRole ∨ role = Symbol.deserializerRole) {helper : Symbol}
    (hp : s.property? role = some helper) : ∃ name, helper = modelClass cx.package name := by
  rw [hcx.provider] at h
  induction h with
  | standsFor _ _ ih => exact ih hp
  | variant _ _ _ _ => cases hp
  | @plain _ _ s hid hs he hk =>
    obtain ⟨hwrite, hread⟩ := shapeSymbol_helper he hk
    change s.property? role = some helper at hp
    rcases hrole with rfl | rfl
    · rw [hwrite] at hp
      cases hp
    · rcases hread with hread | ⟨_, -, rfl⟩
      · rw [hread] at hp
        cases hp
      · simp only [unionType, Symbol.property?_withProperty, Symbol.deserializerRole, Symbol.unknownRole] at hp
        exact ⟨_, (Option.some.inj hp).symm⟩
  | @collection _ _ e element s hid hs he _ hk _ =>
    have hform := shapeSymbol_collection he hk
    change s.property? role = some helper at hp
    rcases hrole with rfl | rfl
    · rw [hform.serializer?] at hp
      split at hp
      · exact ⟨_, (Option.some.inj hp).symm⟩
      · cases hp
    · rw [hform.deserializer?] at hp
      split at hp
      · exact ⟨_, (Option.some.inj hp).symm⟩
      · cases hp

end Context

/-! ### Modules of types -/

namespace Reading

variable {cx : Context} {here : String}

theorem admitting_elsewhere (h : here ∉ modules cx.package) :
    ((admitting cx).inside here).Grounded ∧ ((admitting cx).inside here).SchemasGrounded :=
  ⟨⟨fun _ _ => Context.admits_elsewhere h, Context.admits_elsewhere h, fun _ => Context.admits_elsewhere h⟩,
    ⟨fun _ _ => Context.admits_elsewhere h⟩⟩

theorem admitting_models : ((admitting cx).inside (cx.package ++ "." ++ modelsModule)).Grounded where
  library _ hs := Context.admits_foreign (by decide) hs
  apiError := Context.admits_local rfl rfl
  timestamp _ := Context.admits_local rfl rfl

theorem admitting_schemas : ((admitting cx).inside (cx.package ++ "." ++ schemasModule)).SchemasGrounded where
  library _ hs := Context.admits_foreign (by decide) hs

end Reading

namespace TypesKnown

variable {cx : Context} {t : Table} (hcx : cx.Standard) (h : TypesKnown cx t) {id : ShapeId} {shape : Shape}

include hcx h

/-- The schema of an id is in the schemas module, or in no module of the package. -/
theorem schemaHome_cases (hc : t.cached? id = some (cx.sym id)) :
    cx.schemaHome id = cx.package ++ "." ++ schemasModule ∨ cx.schemaHome id ∉ modules cx.package := by
  unfold Context.schemaHome Context.helper
  cases hp : (cx.sym id).property? Symbol.schemaRole with
  | none => exact .inr (not_mem_modules hcx.package rfl)
  | some helper =>
    obtain ⟨id', shape', -, rfl⟩ := Context.schema_of_property hcx (h.sound.faithful id _ hc) hp
    have hforeign : isForeign "smithy_core.prelude" = true := rfl
    rw [Option.getD_some, Naming.schema]
    split
    · exact .inr (not_mem_modules hcx.package hforeign)
    · exact .inl rfl

/-- The classes and functions of an emitted shape are in the models module, or in no module of the package. -/
theorem home_cases (he : cx.Emits shape) :
    cx.home shape = cx.package ++ "." ++ modelsModule ∨ cx.home shape ∉ modules cx.package := by
  have hden := h.sound.faithful _ _ (h.known_of_emits he (List.mem_cons_self : shape.id ∈ lookups shape))
  unfold Context.home
  split
  · unfold Context.helper
    cases hp : (cx.sym shape.id).property? Symbol.serializerRole with
    | none => exact .inr (not_mem_modules hcx.package rfl)
    | some helper =>
      obtain ⟨name, rfl⟩ := Context.converter_of_property hcx hden (.inl rfl) hp
      exact .inl rfl
  · have hemitted := he.2.2
    cases hk : shape.kind with
    | struct members | enumeration values | union members =>
      rw [hcx.sym_plain he.id_member he.2.1 hk rfl rfl]
      exact .inl rfl
    | scalar type =>
      rw [hcx.sym_plain he.id_member he.2.1 hk rfl rfl]
      exact .inr (not_mem_modules hcx.package (scalar_foreign type).1)
    | list e | set e | map k e =>
      rename_i hnone
      rw [hk] at hnone
      exact absurd rfl hnone
    | operation op | service service => simp [Shape.isEmitted, hk] at hemitted

theorem schemasGrounded (hc : t.cached? id = some (cx.sym id)) :
    ((Reading.admitting cx).inside (cx.schemaHome id)).SchemasGrounded := by
  rcases h.schemaHome_cases hcx hc with hhome | hhome
  · rw [hhome]
    exact Reading.admitting_schemas
  · exact (Reading.admitting_elsewhere hhome).2

theorem typesGrounded : (Reading.admitting cx).TypesGrounded where
  models := Reading.admitting_models
  schemas id hid := h.schemasGrounded hcx (h.known id (List.mem_append_left _ hid))

theorem admits_schema (he : cx.Emits shape) (hid : shape.id.isPrelude = false) :
    cx.Admits (cx.package ++ "." ++ modelsModule) (cx.helper shape.id Symbol.schemaRole) := by
  have hden := h.sound.faithful _ _ (h.known_of_emits he (List.mem_cons_self : shape.id ∈ lookups shape))
  have hp := hcx.schema? hden he.id_member he.2.1
  unfold Context.helper
  rw [hp]
  split
  · refine Context.admits_plain ?_ fun _ => ?_
    · rw [Option.getD_some, Naming.schema, hid]
      rfl
    · rw [Option.getD_some, Naming.schema, hid]
      exact .schema hid
  · exact Context.admits_builtin _

/-- The names that are declared for a shape itself are admitted where it is declared. -/
theorem admits_ownGood (he : cx.Emits shape) (hid : shape.id.isPrelude = false) :
    (Reading.admitting cx).OwnGood shape := by
  have hc := h.known_of_emits he (List.mem_cons_self : shape.id ∈ lookups shape)
  have hden := h.sound.faithful _ _ hc
  have hconstant : cx.Admits (cx.schemaHome shape.id) (cx.helper shape.id Symbol.schemaRole) := by
    rcases h.schemaHome_cases hcx hc with hhome | hhome
    · have hns : (cx.helper shape.id Symbol.schemaRole).ns = cx.package ++ "." ++ schemasModule := hhome
      rw [hhome]
      refine Context.admits_local ?_ hns
      rw [Context.helper, hcx.schema? hden he.id_member he.2.1]
      split
      · rw [Option.getD_some, Naming.schema, hid]
        rfl
      · rfl
    · exact Context.admits_elsewhere hhome
  rcases h.home_cases hcx he with hhome | hhome
  · refine ⟨h.schemasGrounded hcx hc, hconstant, ?_, ?_, ?_⟩
    · rw [hhome]
      exact Reading.admitting_models
    · rw [hhome]
      exact h.admits_schema hcx he hid
    · intro members hk
      have hsym : cx.sym shape.id = unionType cx.package shape.id := hcx.sym_plain he.id_member he.2.1 hk rfl rfl
      rw [hhome]
      refine ⟨Context.admits_denoted hcx (by decide) hden, ?_⟩
      have hhelper : cx.helper shape.id Symbol.unknownRole =
          modelClass cx.package (className shape.id.name ++ "Unknown") := by
        unfold Context.helper
        rw [hsym]
        simp [unionType]
      change cx.Admits _ (cx.helper shape.id Symbol.unknownRole)
      rw [hhelper]
      exact Context.admits_local rfl rfl
  · exact ⟨h.schemasGrounded hcx hc, hconstant, (Reading.admitting_elsewhere hhome).1, Context.admits_elsewhere hhome,
      fun _ _ => ⟨Context.admits_elsewhere hhome, Context.admits_elsewhere hhome⟩⟩

theorem admits_value (hc : t.cached? id = some (cx.sym id)) :
    ((Reading.admitting cx).inside (cx.package ++ "." ++ modelsModule)).ValueGood id := by
  have hden := h.sound.faithful _ _ hc
  have hconverter : ∀ role, role = Symbol.serializerRole ∨ role = Symbol.deserializerRole →
      ((Reading.admitting cx).inside (cx.package ++ "." ++ modelsModule)).HelperGood id role := by
    intro role hrole helper hp
    obtain ⟨name, rfl⟩ := Context.converter_of_property hcx hden hrole hp
    exact Context.admits_local rfl rfl
  have htype : cx.Admits (cx.package ++ "." ++ modelsModule) (cx.sym id) := Context.admits_denoted hcx (by decide) hden
  refine ⟨htype, fun _ _ _ => hconverter _ (.inl rfl), fun shape _ => ?_⟩
  cases shape.kind with
  | struct _ | enumeration _ => exact htype
  | union _ | list _ | set _ | map _ _ => exact hconverter _ (.inr rfl)
  | scalar _ | operation _ | service _ => trivial

/-- **The declarations of a shape mention what is admitted**, if the targets of its members have schemas. -/
theorem admits_shapeGood (he : cx.Emits shape)
    (hschemas : ∀ target ∈ entryTargets shape.kind, ∃ schema,
      (cx.sym target).property? Symbol.schemaRole = some schema) :
    (Reading.admitting cx).ShapeGood shape := by
  have hc := h.known_of_emits he (List.mem_cons_self : shape.id ∈ lookups shape)
  have hentry : ∀ target ∈ entryTargets shape.kind, t.cached? target = some (cx.sym target) :=
    fun target htarget => h.known_of_emits he (by simp [lookups, htarget])
  have hvalue : ∀ m ∈ shape.members, ((Reading.admitting cx).inside (cx.home shape)).ValueGood m.target := by
    intro m hm
    rcases h.home_cases hcx he with hhome | hhome
    · rw [hhome]
      exact h.admits_value hcx (hentry m.target (target_mem_entryTargets hm))
    · refine ⟨Context.admits_elsewhere hhome, fun _ _ _ _ _ => Context.admits_elsewhere hhome, fun shape' _ => ?_⟩
      cases shape'.kind with
      | struct _ | enumeration _ => exact Context.admits_elsewhere hhome
      | union _ | list _ | set _ | map _ _ => exact fun _ _ => Context.admits_elsewhere hhome
      | scalar _ | operation _ | service _ => trivial
  have hself : ∀ {id}, t.cached? id = some (cx.sym id) → cx.Admits (cx.home shape) (cx.sym id) := by
    intro id hc
    rcases h.home_cases hcx he with hhome | hhome
    · rw [hhome]
      exact Context.admits_denoted hcx (by decide) (h.sound.faithful _ _ hc)
    · exact Context.admits_elsewhere hhome
  refine ⟨fun target htarget => ?_, ?_⟩
  · obtain ⟨schema, hp⟩ := hschemas target htarget
    refine ⟨schema, hp, ?_⟩
    obtain ⟨id', shape', hs', rfl⟩ :=
      Context.schema_of_property hcx (h.sound.faithful _ _ (hentry target htarget)) hp
    rcases h.schemaHome_cases hcx hc with hhome | hhome
    · change cx.Admits (cx.schemaHome shape.id) _
      rw [hhome, Naming.schema]
      split
      · exact Context.admits_plain rfl fun _ => .prelude hs' ‹_›
      · exact Context.admits_local rfl rfl
    · exact Context.admits_elsewhere hhome
  · cases hk : shape.kind with
    | struct members => exact fun m hm => hvalue m (by simpa [Shape.members, hk, Kind.members] using hm)
    | union members =>
      intro m hm
      refine ⟨hself (h.known_of_emits he ?_), hvalue m (by simpa [Shape.members, hk, Kind.members] using hm)⟩
      simp only [lookups, hk]
      exact List.mem_append_right _ (List.mem_map.2 ⟨m, hm, rfl⟩)
    | list e | set e | map k e =>
      have he : e ∈ shape.members := by simp [Shape.members, hk, Kind.members]
      exact fun _ => ⟨hself hc, (hvalue e he).2⟩
    | scalar _ | enumeration _ | operation _ | service _ => trivial

end TypesKnown

/-! ### Modules of a client -/

namespace Package

variable {cx : Context} {protocol : Option HttpProtocol} {operations : List (Shape × Operation)}

/-- What the modules of a client take from elsewhere, or mention in every package, is admitted. -/
theorem admits_modulesGrounded (hcx : cx.Standard) (hprotocol : ∀ p, protocol = some p → p ∈ [restJson, rpcCbor]) :
    (Reading.admitting cx).ModulesGrounded protocol operations := by
  have hclient : cx.clientHome = cx.package ++ "." ++ clientModule := clientClass_ns hcx
  have hforeign : ∀ sub ∈ submodules, ∀ s ∈ foreignImports sub, cx.Admits (cx.package ++ "." ++ sub) s :=
    fun _ hsub _ hs => Context.admits_foreign hsub hs
  have hown : ∀ sub home name : String, (home, name) ∈ ownNames sub →
      cx.Admits (cx.package ++ "." ++ sub) (declared cx.package name home) := fun _ _ _ => Context.admits_own
  have hcodec : ∀ p ∈ [restJson, rpcCbor], ∀ sub ∈ [serializeModule, deserializeModule],
      cx.Admits (cx.package ++ "." ++ sub) p.codec := by
    intro p hp sub hsub
    simp only [List.mem_cons, List.not_mem_nil, or_false] at hp hsub
    rcases hp with rfl | rfl <;> rcases hsub with rfl | rfl <;>
      exact hforeign _ (by decide) _ (by simp [foreignImports, modelsModule, schemasModule, authModule, configModule,
        clientModule, serializeModule, deserializeModule])
  refine {
    auth := hforeign authModule (by decide) _ List.mem_cons_self
    config := ⟨fun s hs => hforeign configModule (by decide) s (List.mem_append_left _ hs),
      fun _ => Context.admits_builtin _, Context.admits_local rfl rfl, hown configModule authModule _ (by decide)⟩
    schemes := fun scheme hscheme symbol hsymbol => hforeign configModule (by decide) symbol
      (List.mem_append_right _ (List.mem_filterMap.2 ⟨scheme, hscheme, hsymbol⟩))
    client := ?_
    transfer := ?_
    writers := ⟨fun s hs => hforeign serializeModule (by decide) s (List.mem_append_left _ hs),
      hown serializeModule configModule _ (by decide)⟩
    readers := ⟨fun s hs => hforeign deserializeModule (by decide) s (List.mem_append_left _ hs),
      hown deserializeModule configModule _ (by decide), hown deserializeModule modelsModule _ (by decide),
      hown deserializeModule modelsModule _ (by decide)⟩
    codec := fun p hp => ⟨hcodec p (hprotocol p hp) _ (by decide), hcodec p (hprotocol p hp) _ (by decide)⟩ }
  · rw [hclient]
    exact ⟨fun s hs => hforeign clientModule (by decide) s (List.mem_append_left _ hs),
      hown clientModule configModule _ (by decide), hown clientModule configModule _ (by decide),
      hown clientModule modelsModule _ (by decide), hown clientModule modelsModule _ (by decide)⟩
  · intro _ o _
    rw [hclient]
    exact ⟨Context.admits_plain rfl fun _ => .converter (by decide),
      Context.admits_plain rfl fun _ => .converter (by decide)⟩

/-- So are the names that auth schemes are chosen with. -/
theorem admits_choiceGood (hcx : cx.Standard) (transfers : Bool) : (Reading.admitting cx).ChoiceGood transfers := by
  have hclient : cx.clientHome = cx.package ++ "." ++ clientModule := clientClass_ns hcx
  have hauth : ∀ s ∈ foreignImports authModule, cx.Admits (cx.package ++ "." ++ authModule) s :=
    fun _ hs => Context.admits_foreign (by decide) hs
  refine ⟨⟨hauth _ (List.mem_cons_of_mem _ List.mem_cons_self),
    hauth _ (List.mem_cons_of_mem _ (List.mem_cons_of_mem _ List.mem_cons_self))⟩, fun _ => ?_⟩
  · rw [hclient]
    exact Context.admits_foreign (by decide) (List.mem_append_right _ List.mem_cons_self)

theorem admits_operationsGood (hcx : cx.Standard) {t : Table} (hsound : t.Sound cx.provider cx.model) {transfers : Bool}
    (hknown : ∀ id ∈ clientIds cx transfers operations, t.cached? id = some (cx.sym id)) :
    (Reading.admitting cx).OperationsGood transfers operations := by
  have hclient : cx.clientHome = cx.package ++ "." ++ clientModule := clientClass_ns hcx
  intro o ho
  have hids : ∀ target ∈ o.2.valueTargets ++ (if transfers then operationErrors cx.service o.2 else []),
      ∀ sub ∈ typeUsers, cx.Admits (cx.package ++ "." ++ sub) (cx.sym target) := by
    intro target htarget sub hsub
    have hc := hknown target (List.mem_cons_of_mem _ (List.mem_flatMap.2 ⟨o, ho, List.mem_cons_of_mem _ htarget⟩))
    exact Context.admits_denoted hcx hsub (hsound.faithful _ _ hc)
  refine ⟨fun target htarget => ?_, fun htransfers => ⟨fun target htarget => ?_, fun target htarget => ?_⟩⟩
  · rw [hclient]
    exact hids target (List.mem_append_left _ htarget) _ (by decide)
  · exact hids target (List.mem_append_left _ (List.mem_append_left _ htarget)) _ (by decide)
  · refine hids target ?_ _ (by decide)
    rcases List.mem_append.1 htarget with htarget | htarget
    · exact List.mem_append_left _ (List.mem_append_right _ htarget)
    · rw [if_pos htransfers]
      exact List.mem_append_right _ htarget

/-! ### Runs -/

/-- **All that the edits of a run mention is admitted**, if no shape that it emits is in the prelude. -/
theorem Run.edits_admit {run : Run} {settings : Settings} (hrun : run.Builtin settings) {client : Option Symbol}
    (hok : (run.plan {}).result = .ok client) (hprelude : ∀ shape, run.cx.Emits shape → shape.id.isPrelude = false) :
    ∀ e ∈ run.edits, ∀ s ∈ Step.mentionsAll e.script, run.cx.Admits e.ns s := by
  have hcx := hrun.standard
  -- the plan is read twice: the first time to learn which symbols it looks up, and that targets have schemas
  cases hartifact : run.cx.settings.artifact with
  | types =>
    obtain ⟨h, -, hgood⟩ := plan_names_types hcx.placed hok hartifact
    obtain ⟨-, -, hadmit, -⟩ := packageEdits_types (r := Reading.admitting run.cx) hcx.placed
      (fun shape he => h.admits_ownGood hcx he (hprelude shape he)) (h.typesGrounded hcx) hartifact run.protocol
      run.plugins {} client (Table.sound_empty _ _) hok
    refine hadmit.2 fun shape he => h.admits_shapeGood hcx he fun target htarget => ?_
    obtain ⟨schema, hp, -⟩ := (hgood shape he).1 target htarget
    exact ⟨schema, hp⟩
  | client =>
    obtain ⟨protocol, hprotocol, hbuiltin⟩ := hrun.protocol
    obtain ⟨operations, resolution, hops, hres⟩ := resolution_of_ok hok hartifact
    obtain ⟨h, hids, -, hgood⟩ := plan_names_client hcx.placed hrun.schemes hrun.properties hok hartifact hprotocol
      hops hres
    obtain ⟨-, -, hadmit, -⟩ := plan_yields hcx.placed hrun.schemes hrun.properties
      hartifact hprotocol hops hres
      (h.typesGrounded hcx) (fun shape he => h.admits_ownGood hcx he (hprelude shape he))
      (admits_modulesGrounded hcx hbuiltin) {} client (Table.sound_empty _ _) hok
    refine hadmit.2 ⟨fun shape he => h.admits_shapeGood hcx he fun target htarget => ?_, admits_choiceGood hcx _,
      admits_operationsGood hcx h.sound hids⟩
    obtain ⟨schema, hp, -⟩ := (hgood shape he).1 target htarget
    exact ⟨schema, hp⟩

end Package

end ClientGen
