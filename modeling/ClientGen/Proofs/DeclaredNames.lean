import ClientGen.Proofs.FixedNames
import ClientGen.Proofs.SymbolForms

/-!
# Which symbols are declared

What it takes, in terms of the model, for the names of a symbol to be defined in the package.

* `Finished.nameDeclared_iff`, `Finished.schemaDeclared_iff`, …: they are the conditions under which the symbols are
  declared.

That a name is not declared rests on the table: it gives each name to one id, so a name that is defined for
another id is not the one that was looked up.
-/

namespace ClientGen

open Naming Package

variable {cx : Context} {shape : Shape} {m : Member} {id : ShapeId}

namespace Context

/-- **The type of the id's values is declared**: members stand for their targets and collections for what they
hold, and a shape with a name of its own has to be emitted. Variants of unions may also come to be called like
one of the names that every models module starts with. -/
inductive NameDeclared (cx : Context) : ShapeId → Prop where
  | member {id : ShapeId} {member : Member} : Provider.standsFor? cx.model id = some member →
      NameDeclared cx member.target → NameDeclared cx id
  | element {id : ShapeId} {shape : Shape} {e : Member} : id.member = none → cx.model.get? id = some shape →
      shape.kind.element? = some e → NameDeclared cx e.target → NameDeclared cx id
  | scalar {id : ShapeId} {shape : Shape} {type : Scalar} : id.member = none → cx.model.get? id = some shape →
      shape.kind = .scalar type → NameDeclared cx id
  | emitted {shape : Shape} : cx.Emits shape → shape.kind.element? = none → NameDeclared cx shape.id
  | variant {id : ShapeId} {name : String} {shape : Shape} {members : List Member} : id.member = some name →
      cx.model.get? id = some shape → shape.kind = .union members →
      (cx.Emits shape ∨ (Naming.variant cx.package shape.id name).name ∈ preambleNames cx.model) → NameDeclared cx id
  | client : cx.settings.artifact = .client → NameDeclared cx cx.service.id

/-- **The schema of the id is declared**: the prelude has its schemas ready, recursive shapes have theirs declared
before all others, and other shapes have to be emitted. -/
inductive SchemaDeclared (cx : Context) : ShapeId → Prop where
  | member {id : ShapeId} {member : Member} : Provider.standsFor? cx.model id = some member →
      SchemaDeclared cx member.target → SchemaDeclared cx id
  | self {id : ShapeId} {shape : Shape} : id.member = none → cx.model.get? id = some shape →
      shape.hasSchema = true → (id.isPrelude = true ∨ id ∈ cx.order.recursive ∨ cx.Emits shape) → SchemaDeclared cx id

/-- **The functions of the id are declared**, if it stands for a collection that has functions: the collection has
to be emitted. -/
inductive FunctionsDeclared (cx : Context) : ShapeId → Prop where
  | member {id : ShapeId} {member : Member} : Provider.standsFor? cx.model id = some member →
      FunctionsDeclared cx member.target → FunctionsDeclared cx id
  | self {id : ShapeId} : Provider.standsFor? cx.model id = none →
      (∀ shape e, id.member = none → cx.model.get? id = some shape → shape.kind.element? = some e →
        cx.model.converts e.target = true → cx.Emits shape) → FunctionsDeclared cx id

/-- All that a member needs whose values are converted. -/
def ValueDeclared (cx : Context) (target : ShapeId) : Prop :=
  cx.NameDeclared target ∧
    ∀ shape, cx.model.get? target = some shape → shape.kind.element?.isSome = true → cx.FunctionsDeclared target

end Context

theorem Context.Emits.id_member (h : cx.Emits shape) : shape.id.member = none := by
  rw [(Model.get?_id h.2.1).1]
  rfl

theorem Context.Standard.mem_shapes (hcx : cx.Standard) (h : cx.Emits shape) : shape ∈ cx.model.shapes := by
  obtain ⟨shape', hm, -, hs⟩ := hcx.placed shape.id h.1
  rw [h.2.1] at hs
  cases hs
  exact hm

theorem Context.Standard.member_id (hcx : cx.Standard) (h : cx.Emits shape) (hm : m ∈ shape.members) :
    m.id.member = some m.name ∧ cx.model.get? m.id = some shape := by
  rw [hcx.members shape (hcx.mem_shapes h) m hm]
  exact ⟨rfl, h.2.1⟩

theorem Shape.member?_of_mem (hm : m ∈ shape.members) : ∃ first, shape.member? m.name = some first := by
  rw [← Option.isSome_iff_exists, Shape.member?, List.find?_isSome]
  exact ⟨m, hm, beq_self_eq_true _⟩

theorem Context.Standard.variant_sym (hcx : cx.Standard) (h : cx.Emits shape) {members : List Member}
    (hk : shape.kind = .union members) (hm : m ∈ members) : cx.sym m.id = variant cx.package shape.id m.name := by
  have hmem : m ∈ shape.members := by simpa [Shape.members, hk, Kind.members] using hm
  obtain ⟨hmember, hs⟩ := hcx.member_id h hmem
  obtain ⟨first, hfirst⟩ := Shape.member?_of_mem hmem
  exact hcx.sym_variant hmember hs hk hfirst

theorem Context.Standard.service_member (hcx : cx.Standard) : cx.service.id.member = none := by
  rw [(Model.get?_id hcx.service).1]
  rfl

theorem Context.FunctionsDeclared.of_standsFor {member : Member} (h : cx.FunctionsDeclared id)
    (hst : Provider.standsFor? cx.model id = some member) : cx.FunctionsDeclared member.target := by
  cases h with
  | member hst' hd =>
    rw [hst] at hst'
    cases hst'
    exact hd
  | self hnone =>
    rw [hst] at hnone
    cases hnone

theorem Context.FunctionsDeclared.of_shape {e : Member} (h : cx.FunctionsDeclared id) (hid : id.member = none)
    (hs : cx.model.get? id = some shape)
    (he : shape.kind.element? = some e) (hconverts : cx.model.converts e.target = true) : cx.Emits shape := by
  cases h with
  | member hst =>
    rw [Provider.standsFor?_of_no_member hid] at hst
    cases hst
  | self _ hd => exact hd shape e hid hs he hconverts

namespace Context.NameDeclared

variable {cx : Context} (hcx : cx.Standard) {id : ShapeId} {shape : Shape} (h : cx.NameDeclared id)

include hcx h

theorem of_standsFor {member : Member} (hst : Provider.standsFor? cx.model id = some member) :
    cx.NameDeclared member.target := by
  have hnone : id.member ≠ none := by
    intro hid
    rw [Provider.standsFor?_of_no_member hid] at hst
    cases hst
  cases h with
  | member hst' hd =>
    rw [hst] at hst'
    cases hst'
    exact hd
  | element hid | scalar hid => exact absurd hid hnone
  | emitted he => exact absurd he.id_member hnone
  | variant _ hs hk =>
    rw [Provider.standsFor?_of_union hs hk] at hst
    cases hst
  | client => exact absurd hcx.service_member hnone

/-- A shape whose type is declared: it is a collection of such values or a simple type, it is emitted, or it is the
service of a client. -/
theorem of_shape (hid : id.member = none) (hs : cx.model.get? id = some shape) :
    (∃ e, shape.kind.element? = some e ∧ cx.NameDeclared e.target) ∨ (∃ type, shape.kind = .scalar type) ∨
      (cx.Emits shape ∧ shape.kind.element? = none) ∨
      (cx.settings.artifact = .client ∧ id = cx.service.id ∧ ∃ service, shape.kind = .service service) := by
  cases h with
  | member hst =>
    rw [Provider.standsFor?_of_no_member hid] at hst
    cases hst
  | element _ hs' he hd =>
    rw [hs] at hs'
    cases hs'
    exact .inl ⟨_, he, hd⟩
  | scalar _ hs' hk =>
    rw [hs] at hs'
    cases hs'
    exact .inr (.inl ⟨_, hk⟩)
  | emitted he hk =>
    rw [he.2.1] at hs
    cases hs
    exact .inr (.inr (.inl ⟨he, hk⟩))
  | variant hmember =>
    rw [hid] at hmember
    cases hmember
  | client hclient =>
    rw [hcx.service] at hs
    cases hs
    exact .inr (.inr (.inr ⟨hclient, rfl, hcx.serviceKind⟩))

/-- If it holds no values and is no simple type, it is emitted or the service of a client. -/
theorem emits_or_client (hid : id.member = none) (hs : cx.model.get? id = some shape)
    (he : shape.kind.element? = none) (hscalar : ∀ type, shape.kind ≠ .scalar type) :
    cx.Emits shape ∨
      cx.settings.artifact = .client ∧ id = cx.service.id ∧ ∃ service, shape.kind = .service service := by
  rcases h.of_shape hcx hid hs with ⟨e, he', -⟩ | ⟨type, hkind⟩ | ⟨hemit, -⟩ | hclient
  · rw [he] at he'
    cases he'
  · exact absurd hkind (hscalar type)
  · exact .inl hemit
  · exact .inr hclient

theorem of_variant {name : String} {members : List Member} (hid : id.member = some name)
    (hs : cx.model.get? id = some shape) (hk : shape.kind = .union members) :
    cx.Emits shape ∨ (Naming.variant cx.package shape.id name).name ∈ preambleNames cx.model := by
  have hsome : id.member ≠ none := by simp [hid]
  cases h with
  | member hst =>
    rw [Provider.standsFor?_of_union hs hk] at hst
    cases hst
  | element hnone | scalar hnone => exact absurd hnone hsome
  | emitted he => exact absurd he.id_member hsome
  | variant hid' hs' _ hd =>
    rw [hid] at hid'
    cases hid'
    rw [hs] at hs'
    cases hs'
    exact hd
  | client => exact absurd hcx.service_member hsome

end Context.NameDeclared

/-- The table of symbols has all that the declarations of types look up. -/
structure TypesKnown (cx : Context) (t : Table) : Prop where
  sound : t.Sound cx.provider cx.model
  known : ∀ id ∈ typeIds cx, t.cached? id = some (cx.sym id)

/-- **The end of a run**: the names that it has defined, and the table of the symbols that it looked up. -/
structure Finished (cx : Context) (names : List (String × String)) (t : Table) : Prop extends TypesKnown cx t where
  types : ∀ sub ∈ [modelsModule, schemasModule], ∀ name,
    (cx.package ++ "." ++ sub, name) ∈ names ↔ (cx.package ++ "." ++ sub, name) ∈ typeNames cx
  client : ∀ name, (cx.package ++ "." ++ clientModule, name) ∈ names ↔
    cx.settings.artifact = .client ∧ name = (cx.sym cx.service.id).name
  service : cx.settings.artifact = .client → t.cached? cx.service.id = some (cx.sym cx.service.id)

/-! ### The names of the models and schemas modules -/

theorem models_mem (package : String) : package ++ "." ++ modelsModule ∈ modules package := by simp [modules, submodules]

theorem schemas_mem (package : String) : package ++ "." ++ schemasModule ∈ modules package := by
  simp [modules, submodules]

theorem models_ne_schemas (package : String) :
    package ++ "." ++ modelsModule ≠ package ++ "." ++ schemasModule := by
  intro h
  have hne : modelsModule ≠ schemasModule := by decide
  exact hne (module_inj h)

/-- The id has a schema of its own: it is recursive or emitted. -/
def Context.HasSchema (cx : Context) (id : ShapeId) : Prop :=
  id ∈ cx.order.recursive ∨ ∃ shape, cx.Emits shape ∧ shape.id = id

theorem Context.HasSchema.id_member (hcx : cx.Standard) (h : cx.HasSchema id) : id.member = none := by
  rcases h with hrec | ⟨shape, he, rfl⟩
  · obtain ⟨shape, -, rfl, hs⟩ := hcx.placed id (List.mem_append_right _ hrec)
    rw [(Model.get?_id hs).1]
    rfl
  · exact he.id_member

theorem schemaName_mem (h : cx.HasSchema id) : schemaName cx id ∈ typeNames cx := by
  refine List.mem_append_right _ ?_
  by_cases hrec : id ∈ cx.order.recursive
  · exact List.mem_append_left _ (List.mem_map.2 ⟨id, hrec, rfl⟩)
  · obtain ⟨shape, he, rfl⟩ := h.resolve_left hrec
    refine List.mem_append_right _ (List.mem_flatMap.2 ⟨shape.id, he.1, ?_⟩)
    have hnot : cx.order.isRecursive shape.id = false := by simpa [EmissionOrder.isRecursive] using hrec
    simp [namesAt, he.2.1, he.2.2, shapeNames, hnot]

theorem preamble_mem {text : String} (h : text ∈ preambleNames cx.model) :
    (cx.package ++ "." ++ modelsModule, text) ∈ typeNames cx :=
  List.mem_append_left _ (List.mem_map.2 ⟨text, h, rfl⟩)

theorem modelNames_mem (he : cx.Emits shape) {name : String × String} (hn : name ∈ modelNames cx shape) :
    name ∈ typeNames cx := by
  refine List.mem_append_right _ (List.mem_append_right _ (List.mem_flatMap.2 ⟨shape.id, he.1, ?_⟩))
  simp [namesAt, he.2.1, he.2.2, shapeNames, hn]

theorem mem_typeNames (hcx : cx.Standard) {name : String × String} (hn : name ∈ typeNames cx) :
    (name.1 = cx.package ++ "." ++ modelsModule ∧ name.2 ∈ preambleNames cx.model) ∨
      (∃ id, cx.HasSchema id ∧ name = schemaName cx id) ∨ ∃ shape, cx.Emits shape ∧ name ∈ modelNames cx shape := by
  simp only [typeNames, List.mem_append, List.mem_map, List.mem_flatMap] at hn
  rcases hn with ⟨text, htext, rfl⟩ | ⟨id, hid, rfl⟩ | ⟨id, hid, hn⟩
  · exact .inl ⟨rfl, htext⟩
  · exact .inr (.inl ⟨id, .inl hid, rfl⟩)
  · obtain ⟨shape, -, rfl, hs⟩ := hcx.placed id hid
    simp only [namesAt, hs] at hn
    split at hn
    · rename_i hemit
      have he : cx.Emits shape := ⟨hid, hs, hemit⟩
      rcases List.mem_append.1 hn with hn | hn
      · split at hn
        · simp at hn
        · exact .inr (.inl ⟨shape.id, .inr ⟨shape, he, rfl⟩, List.mem_singleton.1 hn⟩)
      · exact .inr (.inr ⟨shape, he, hn⟩)
    · simp at hn

/-- The name is one of those that the table has given to the id. -/
def Context.Owns (cx : Context) (t : Table) (id : ShapeId) (name : String × String) : Prop :=
  t.cached? id = some (cx.sym id) ∧ Provider.standsFor? cx.model id = none ∧ name ∈ (cx.sym id).declarations

/-- The name is in the models module, and belongs to the shape or one of its members. -/
def Owner (cx : Context) (t : Table) (shape : Shape) (name : String × String) : Prop :=
  name.1 = cx.package ++ "." ++ modelsModule ∧ ∃ id, cx.Owns t id name ∧ id.root = shape.id

namespace TypesKnown

variable {cx : Context} {t : Table} (hcx : cx.Standard) (h : TypesKnown cx t) {id : ShapeId} {s : Symbol}

include h

/-- A name belongs to one id only. -/
theorem owner_unique {id' : ShapeId} {name : String × String} (ho : cx.Owns t id name) (ho' : cx.Owns t id' name) :
    id = id' := by
  have howner := h.sound.owned id _ ho.1 ho.2.1 name ho.2.2
  rw [h.sound.owned id' _ ho'.1 ho'.2.1 name ho'.2.2] at howner
  exact (Option.some.inj howner).symm

theorem known_of_emits {shape : Shape} (he : cx.Emits shape) (hid : id ∈ lookups shape) :
    t.cached? id = some (cx.sym id) := by
  obtain ⟨hall, hs, hemit⟩ := he
  refine h.known id (List.mem_append_right _ (List.mem_flatMap.2 ⟨shape.id, hall, ?_⟩))
  simpa only [knownAt, hs, hemit, if_true] using hid

/-- What an id that has been looked up is called, and its helpers, belong to it. -/
theorem owns_of_cached {name : String × String} (hc : t.cached? id = some s)
    (hst : Provider.standsFor? cx.model id = none) (hn : name ∈ s.declarations) : cx.Owns t id name := by
  have hsym : cx.sym id = s := Context.sym_eq (h.sound.faithful id s hc)
  exact ⟨by rw [hsym]; exact hc, hst, by rw [hsym]; exact hn⟩

theorem known_of_hasSchema (hid : cx.HasSchema id) : t.cached? id = some (cx.sym id) := by
  rcases hid with hrec | ⟨shape, he, rfl⟩
  · exact h.known id (List.mem_append_left _ hrec)
  · exact h.known_of_emits he (by simp [lookups])

/-- A member that stands for its target has been looked up together with it. -/
theorem cached_target {member : Member} (hc : t.cached? id = some s)
    (hst : Provider.standsFor? cx.model id = some member) : t.cached? member.target = some s := by
  obtain ⟨s', hc'⟩ := h.sound.deep _ _ _ hc (.standsFor hst)
  rw [hc', (h.sound.faithful _ _ hc).unique (.standsFor hst (h.sound.faithful _ _ hc'))]

theorem collection_of_cached {shape : Shape} {e : Member} (hcx : cx.Standard) (hc : t.cached? id = some s)
    (hid : id.member = none) (hs : cx.model.get? id = some shape) (he : shape.kind.element? = some e) :
    CollectionForm cx.package cx.model id e.target (cx.sym e.target) s := by
  have hden := h.sound.faithful id s hc
  rw [hcx.provider] at hden
  cases hden with
  | standsFor hst =>
    rw [Provider.standsFor?_of_no_member hid] at hst
    cases hst
  | variant hmember =>
    rw [hid] at hmember
    cases hmember
  | plain _ hs' he' =>
    rw [hs] at hs'
    cases hs'
    rw [he] at he'
    cases he'
  | collection _ hs' he' helement hsym =>
    rw [hs] at hs'
    cases hs'
    rw [he] at he'
    cases he'
    rw [Context.sym_eq (by rw [hcx.provider]; exact helement)]
    exact shapeSymbol_collection he hsym

include hcx

section Emitted

variable {name : String × String} {members : List Member}

variable {shape : Shape} (he : cx.Emits shape)

include he

omit hcx in
theorem owns_self (hn : name ∈ (cx.sym shape.id).declarations) :
    cx.Owns t shape.id name :=
  ⟨h.known_of_emits he (by simp [lookups]), Provider.standsFor?_of_no_member he.id_member, hn⟩

omit hcx in
theorem class_owner (hf : (cx.sym shape.id).file.isSome = true)
    (hns : (cx.sym shape.id).ns = cx.package ++ "." ++ modelsModule) :
    Owner cx t shape ((cx.sym shape.id).ns, (cx.sym shape.id).name) :=
  ⟨hns, shape.id, h.owns_self he (Symbol.mem_declarations_self hf), (Model.get?_id he.2.1).1.symm⟩

theorem variant_owns (hk : shape.kind = .union members) {m : Member} (hm : m ∈ members) :
    cx.Owns t m.id (cx.package ++ "." ++ modelsModule, (cx.sym m.id).name) := by
  obtain ⟨-, hs⟩ := hcx.member_id he (by simpa [Shape.members, hk, Kind.members] using hm)
  have hown : cx.Owns t m.id ((cx.sym m.id).ns, (cx.sym m.id).name) := by
    refine ⟨h.known_of_emits he ?_, Provider.standsFor?_of_union hs hk, Symbol.mem_declarations_self ?_⟩
    · simp only [lookups, hk]
      exact List.mem_append_right _ (List.mem_map.2 ⟨m, hm, rfl⟩)
    · rw [hcx.variant_sym he hk hm]
      rfl
  rw [hcx.variant_sym he hk hm] at hown ⊢
  exact hown

theorem variant_owner (hk : shape.kind = .union members) {m : Member} (hm : m ∈ members) :
    Owner cx t shape (cx.package ++ "." ++ modelsModule, (cx.sym m.id).name) := by
  obtain ⟨-, hs⟩ := hcx.member_id he (by simpa [Shape.members, hk, Kind.members] using hm)
  exact ⟨rfl, m.id, h.variant_owns hcx he hk hm, (Model.get?_id hs).1.symm⟩

omit hcx in
theorem helper_owner {role name : String} (hp : (cx.sym shape.id).property? role = some (modelClass cx.package name)) :
    Owner cx t shape (cx.package ++ "." ++ modelsModule, (cx.helper shape.id role).name) := by
  have hhelper : cx.helper shape.id role = modelClass cx.package name := by
    unfold Context.helper
    rw [hp]
    rfl
  rw [hhelper]
  exact ⟨rfl, shape.id, h.owns_self he (Symbol.mem_declarations_property hp rfl), (Model.get?_id he.2.1).1.symm⟩

theorem union_owner (hk : shape.kind = .union members) (hn : name ∈ modelNames cx shape) : Owner cx t shape name := by
  have hsym : cx.sym shape.id = unionType cx.package shape.id := hcx.sym_plain he.id_member he.2.1 hk rfl rfl
  have hns : (cx.sym shape.id).ns = cx.package ++ "." ++ modelsModule := by rw [hsym]; rfl
  simp only [modelNames, hk, List.mem_map, unionNames, List.mem_append, List.mem_cons, List.not_mem_nil, or_false,
    hns] at hn
  obtain ⟨text, (⟨m, hm, rfl⟩ | rfl | rfl | rfl), rfl⟩ := hn
  · exact h.variant_owner hcx he hk hm
  · apply h.helper_owner he
    rw [hsym]
    simp [unionType]
    rfl
  · rw [← hns]
    exact h.class_owner he (by rw [hsym]; rfl) hns
  · apply h.helper_owner he
    rw [hsym]
    simp [unionType]
    rfl

theorem function_owner {e : Member} (hk : shape.kind.element? = some e) (hc : cx.converted shape.id = true)
    (hn : name ∈ functionNames cx shape.id) : Owner cx t shape name := by
  have hform := h.collection_of_cached hcx (h.known_of_emits he (by simp [lookups])) he.id_member he.2.1 hk
  rw [Context.converted_eq hform] at hc
  have hwrite := hform.serializer?
  have hread := hform.deserializer?
  rw [if_pos hc] at hwrite hread
  have hns : (cx.helper shape.id Symbol.serializerRole).ns = cx.package ++ "." ++ modelsModule := by
    unfold Context.helper
    rw [hwrite]
    rfl
  simp only [functionNames, hns, List.map_cons, List.map_nil, List.mem_cons, List.not_mem_nil, or_false] at hn
  rcases hn with rfl | rfl
  · exact h.helper_owner he hwrite
  · exact h.helper_owner he hread

/-- **The names in the models module that are defined for an emitted shape belong to it or its members.** -/
theorem modelNames_owner (hn : name ∈ modelNames cx shape) : Owner cx t shape name := by
  have hvalue : cx.sym shape.id = valueClass cx.package shape.id → name = ((cx.sym shape.id).ns, (cx.sym shape.id).name) →
      Owner cx t shape name := by
    rintro hsym rfl
    exact h.class_owner he (by rw [hsym]; rfl) (by rw [hsym]; rfl)
  have hfunction : ∀ e, shape.kind.element? = some e →
      name ∈ (if cx.converted shape.id then functionNames cx shape.id else []) → Owner cx t shape name := by
    intro e hk hn
    split at hn
    · exact h.function_owner hcx he hk ‹_› hn
    · simp at hn
  cases hk : shape.kind with
  | struct members | enumeration values =>
    exact hvalue (hcx.sym_plain he.id_member he.2.1 hk rfl rfl) (by simpa [modelNames, hk] using hn)
  | union members => exact h.union_owner hcx he hk hn
  | list e | set e | map k e => exact hfunction e (by rw [hk]; rfl) (by simpa only [modelNames, hk] using hn)
  | scalar type | operation op | service service => simp [modelNames, hk] at hn

end Emitted

/-- A schema in a module of the package is that of a shape outside of the prelude. -/
theorem schema_own (hid : cx.HasSchema id) (hm : (schemaName cx id).1 ∈ modules cx.package) :
    id.isPrelude = false ∧ (cx.sym id).property? Symbol.schemaRole = some (Naming.schema cx.package id) := by
  have hden := h.sound.faithful id _ (h.known_of_hasSchema hid)
  obtain ⟨shape, hs⟩ := hden.get?
  have hp := hcx.schema? hden (hid.id_member hcx) hs
  unfold schemaName Context.helper at hm
  rw [hp] at hm
  have hschema : shape.hasSchema = true := by
    by_contra hnone
    rw [if_neg hnone] at hm
    exact not_mem_modules hcx.package rfl hm
  rw [hschema, if_pos rfl] at hp hm
  refine ⟨?_, hp⟩
  rw [Bool.eq_false_iff]
  intro hpre
  have hforeign : isForeign "smithy_core.prelude" = true := rfl
  rw [Option.getD_some, Naming.schema, if_pos hpre] at hm
  exact not_mem_modules hcx.package hforeign hm

/-- So its constant is in the schemas module. -/
theorem schemaName_own (hid : cx.HasSchema id) (hm : (schemaName cx id).1 ∈ modules cx.package) :
    schemaName cx id = (cx.package ++ "." ++ schemasModule, Text.screamingCase id.name) := by
  obtain ⟨hpre, hp⟩ := h.schema_own hcx hid hm
  rw [schemaName, Context.helper, hp, Option.getD_some, Naming.schema, hpre]
  rfl

/-- The schema of an id is in the schemas module, or in no module of the package. -/
theorem schemaName_module (hid : cx.HasSchema id) (hm : (schemaName cx id).1 ∈ modules cx.package) :
    (schemaName cx id).1 = cx.package ++ "." ++ schemasModule ∧ cx.Owns t id (schemaName cx id) := by
  obtain ⟨hpre, hp⟩ := h.schema_own hcx hid hm
  have hname : schemaName cx id = ((Naming.schema cx.package id).ns, (Naming.schema cx.package id).name) := by
    rw [schemaName, Context.helper, hp, Option.getD_some]
  refine ⟨by rw [h.schemaName_own hcx hid hm], h.known_of_hasSchema hid,
    Provider.standsFor?_of_no_member (hid.id_member hcx), ?_⟩
  rw [hname]
  refine Symbol.mem_declarations_property hp ?_
  rw [Naming.schema, hpre]
  rfl

theorem typeNames_module {name : String × String} (hn : name ∈ typeNames cx) (hm : name.1 ∈ modules cx.package) :
    name.1 = cx.package ++ "." ++ modelsModule ∨ name.1 = cx.package ++ "." ++ schemasModule := by
  rcases mem_typeNames hcx hn with ⟨hns, -⟩ | ⟨id, hid, rfl⟩ | ⟨shape, he, hn⟩
  · exact .inl hns
  · exact .inr (h.schemaName_module hcx hid hm).1
  · exact .inl (h.modelNames_owner hcx he hn).1

end TypesKnown

namespace Finished

variable {text : String} {shape : Shape}

variable {cx : Context} {names : List (String × String)} {t : Table} (hcx : cx.Standard)
  (h : Finished cx names t) {id : ShapeId} {s : Symbol}

include hcx h

/-- **A name that the models module defines, and that the table has given to an id**, is one that every
models module starts with, or the shape of the id is emitted. -/
theorem emits_of_mem_models (ho : cx.Owns t id (cx.package ++ "." ++ modelsModule, text))
    (hn : (cx.package ++ "." ++ modelsModule, text) ∈ names) :
    text ∈ preambleNames cx.model ∨ ∃ shape, cx.model.get? id = some shape ∧ cx.Emits shape := by
  rw [h.types modelsModule (by simp)] at hn
  rcases mem_typeNames hcx hn with ⟨-, htext⟩ | ⟨id', hid', hname⟩ | ⟨shape, he, hn⟩
  · exact .inl htext
  · have hmodule := (h.schemaName_module hcx hid' (by rw [← hname]; exact models_mem cx.package)).1
    rw [← hname] at hmodule
    exact absurd hmodule (models_ne_schemas cx.package)
  · obtain ⟨-, id', ho', hroot⟩ := h.modelNames_owner hcx he hn
    have hid := h.owner_unique ho ho'
    subst hid
    refine .inr ⟨shape, ?_, he⟩
    rw [← Model.get?_root, hroot]
    exact he.2.1

/-- **A name that the schemas module defines, and that the table has given to an id**, is that of its schema. -/
theorem hasSchema_of_mem_schemas (ho : cx.Owns t id (cx.package ++ "." ++ schemasModule, text))
    (hn : (cx.package ++ "." ++ schemasModule, text) ∈ names) : cx.HasSchema id := by
  rw [h.types schemasModule (by simp)] at hn
  rcases mem_typeNames hcx hn with ⟨hns, -⟩ | ⟨id', hid', hname⟩ | ⟨shape, he, hn⟩
  · exact absurd hns.symm (models_ne_schemas cx.package)
  · have hown := (h.schemaName_module hcx hid' (by rw [← hname]; exact schemas_mem cx.package)).2
    rw [← hname] at hown
    rwa [h.owner_unique ho hown]
  · exact absurd (h.modelNames_owner hcx he hn).1.symm (models_ne_schemas cx.package)

/-! ### Types -/

/-- A name of an id in the models module is defined exactly if the shape is emitted. -/
theorem mem_models_iff (ho : cx.Owns t id (cx.package ++ "." ++ modelsModule, text))
    (hs : cx.model.get? id = some shape) (hfree : text ∉ preambleNames cx.model)
    (hmodel : cx.Emits shape → (cx.package ++ "." ++ modelsModule, text) ∈ modelNames cx shape) :
    (cx.package ++ "." ++ modelsModule, text) ∈ names ↔ cx.Emits shape := by
  constructor
  · intro hn
    rcases h.emits_of_mem_models hcx ho hn with htext | ⟨shape', hs', he⟩
    · exact absurd htext hfree
    · rw [hs] at hs'
      cases hs'
      exact he
  · intro he
    exact (h.types modelsModule (by simp) _).2 (modelNames_mem he (hmodel he))

/-- The client class is declared in a client, and is the only name in its module. -/
theorem client_declaredIn (hc : t.cached? id = some s) (hid : id.member = none) (hr : s.references = [])
    (hplace : s.ns = cx.package ++ "." ++ clientModule ∧ s.file.isSome = true) :
    s.DeclaredIn cx.package names ↔ cx.settings.artifact = .client ∧ id = cx.service.id := by
  have hsym : cx.sym id = s := Context.sym_eq (h.sound.faithful id s hc)
  rw [Symbol.declaredIn_module hr (by simp [submodules]) hplace.1, h.client]
  refine and_congr_right fun hclient => ⟨fun hname => ?_, ?_⟩
  · obtain ⟨service, hkind⟩ := hcx.serviceKind
    have hservice : cx.sym cx.service.id = serviceClient cx.package cx.service.id :=
      hcx.sym_plain hcx.service_member hcx.service hkind rfl rfl
    have ho : cx.Owns t id (cx.package ++ "." ++ clientModule, s.name) := by
      rw [← hplace.1]
      exact h.owns_of_cached hc (Provider.standsFor?_of_no_member hid) (Symbol.mem_declarations_self hplace.2)
    have ho' : cx.Owns t cx.service.id (cx.package ++ "." ++ clientModule, s.name) := by
      refine ⟨h.service hclient, Provider.standsFor?_of_no_member hcx.service_member, ?_⟩
      rw [hname, hservice]
      exact Symbol.mem_declarations_self rfl
    exact h.owner_unique ho ho'
  · rintro rfl
    rw [hsym]

theorem plain_declaredIn (hc : t.cached? id = some s) (hid : id.member = none) (hs : cx.model.get? id = some shape)
    (he : shape.kind.element? = none)
    (hk : Provider.shapeSymbol { package := cx.package } cx.model id default shape.kind = .ok s) :
    s.DeclaredIn cx.package names ↔ cx.NameDeclared id := by
  have hshape := Model.shape_id hs hid
  have hsym : cx.sym shape.id = s := by
    rw [hshape]
    exact Context.sym_eq (h.sound.faithful id s hc)
  -- structures, enums and unions differ in how their class is named, not in when it is declared
  have hclass : ∀ (hr : s.references = []) (hname : s.name = className id.name)
      (hns : s.ns = cx.package ++ "." ++ modelsModule) (hf : s.file.isSome = true)
      (hmodel : (s.ns, s.name) ∈ modelNames cx shape) (hscalar : ∀ type, shape.kind ≠ .scalar type)
      (hservice : ∀ service, shape.kind ≠ .service service), s.DeclaredIn cx.package names ↔ cx.NameDeclared id := by
    intro hr hname hns hf hmodel hscalar hservice
    have ho := h.owns_of_cached hc (Provider.standsFor?_of_no_member hid) (Symbol.mem_declarations_self hf)
    have hfree : s.name ∉ preambleNames cx.model := hname ▸ className_not_mem id.name cx.model
    rw [hns] at ho hmodel
    rw [Symbol.declaredIn_module hr (by simp [submodules]) hns, h.mem_models_iff hcx ho hs hfree fun _ => hmodel]
    refine ⟨fun hemit => hshape ▸ .emitted hemit he, fun hd => ?_⟩
    refine (hd.emits_or_client hcx hid hs he hscalar).resolve_right ?_
    rintro ⟨-, -, service, hkind⟩
    exact hservice service hkind
  cases hkind : shape.kind with
  | struct members | enumeration values =>
    rw [hkind] at hk
    cases hk
    exact hclass rfl (valueClass_name _ _) rfl rfl (by simp [modelNames, hkind, hsym]) (by simp [hkind]) (by simp [hkind])
  | union members =>
    rw [hkind] at hk
    cases hk
    exact hclass rfl (unionType_name _ _) rfl rfl (by simp [modelNames, unionNames, hkind, hsym]) (by simp [hkind]) (by simp [hkind])
  | scalar type =>
    rw [hkind] at hk
    cases hk
    refine ⟨fun _ => .scalar hid hs hkind, fun _ => ?_⟩
    obtain ⟨hforeign, hr⟩ := scalar_foreign type
    exact Symbol.declaredIn_of_foreign hcx.package hr hforeign
  | operation op =>
    rw [hkind] at hk
    cases hk
    rw [h.client_declaredIn hcx hc hid rfl ⟨rfl, rfl⟩]
    constructor
    · rintro ⟨-, rfl⟩
      obtain ⟨service, hkind'⟩ := hcx.serviceKind
      rw [hcx.service] at hs
      cases hs
      rw [hkind] at hkind'
      cases hkind'
    · intro hd
      rcases hd.emits_or_client hcx hid hs he (by simp [hkind]) with hemit | ⟨-, -, service, hkind'⟩
      · exact absurd hemit.2.2 (by simp [Shape.isEmitted, hkind])
      · rw [hkind] at hkind'
        cases hkind'
  | service service =>
    rw [hkind] at hk
    cases hk
    rw [h.client_declaredIn hcx hc hid rfl ⟨rfl, rfl⟩]
    constructor
    · rintro ⟨hclient, hid⟩
      exact hid ▸ .client hclient
    · intro hd
      rcases hd.emits_or_client hcx hid hs he (by simp [hkind]) with hemit | ⟨hclient, hid, -⟩
      · exact absurd hemit.2.2 (by simp [Shape.isEmitted, hkind])
      · exact ⟨hclient, hid⟩
  | list e | set e | map k e =>
    rw [hkind] at he
    cases he

theorem variant_declaredIn {name : String} {members : List Member} {member : Member}
    (hc : t.cached? id = some (variant cx.package shape.id name)) (hid : id.member = some name)
    (hs : cx.model.get? id = some shape) (hk : shape.kind = .union members) (hm : shape.member? name = some member) :
    (variant cx.package shape.id name).DeclaredIn cx.package names ↔ cx.NameDeclared id := by
  have hsym := hcx.sym_variant hid hs hk hm
  rw [Symbol.declaredIn_module rfl (by simp [submodules]) rfl]
  constructor
  · intro hn
    have ho := h.owns_of_cached hc (Provider.standsFor?_of_union hs hk) (Symbol.mem_declarations_self rfl)
    refine .variant hid hs hk ?_
    rcases h.emits_of_mem_models hcx ho hn with htext | ⟨shape', hs', he⟩
    · exact .inr htext
    · rw [hs] at hs'
      cases hs'
      exact .inl he
  · intro hd
    rw [h.types modelsModule (by simp)]
    rcases hd.of_variant hcx hid hs hk with he | htext
    · refine modelNames_mem he ?_
      have hmem : member ∈ members := by
        have := List.mem_of_find?_eq_some hm
        simpa [Shape.members, hk, Kind.members] using this
      have hname : member.name = name := by simpa using List.find?_some hm
      have hmember : member.id = id := by
        rw [hcx.members shape (hcx.mem_shapes he) member (by simpa [Shape.members, hk, Kind.members] using hmem), hname,
          (Model.get?_id hs).1]
        exact congrArg (ShapeId.mk id.ns id.name) hid.symm
      have hunion : cx.sym shape.id = unionType cx.package shape.id :=
        hcx.sym_plain he.id_member he.2.1 hk rfl rfl
      simp only [modelNames, hk, unionNames, hunion, List.map_append, List.mem_append, List.mem_map]
      refine .inl ⟨_, ⟨member, hmem, rfl⟩, ?_⟩
      rw [hmember, hsym]
      rfl
    · exact preamble_mem htext

/-- **The type of an id is declared exactly under the condition.** -/
theorem nameDeclared_iff (hc : t.cached? id = some s) : s.DeclaredIn cx.package names ↔ cx.NameDeclared id := by
  have hden := h.sound.faithful id s hc
  rw [hcx.provider] at hden
  -- the induction is on how the symbol is made; what it is made from has been looked up, too
  induction hden with
  | standsFor hst hden ih =>
    have hc' := h.cached_target hc hst
    exact (ih hc').trans ⟨fun hd => .member hst hd, fun hd => hd.of_standsFor hcx hst⟩
  | @variant id name shape members member hid hs hk hm =>
    exact h.variant_declaredIn hcx hc hid hs hk hm
  | plain hid hs he hk => exact h.plain_declaredIn hcx hc hid hs he hk
  | collection hid hs he hden hk ih =>
    obtain ⟨s', hc'⟩ := h.sound.deep _ _ _ hc (.element hid hs he)
    have hs' : s' = _ := (h.sound.faithful _ _ hc').unique (by rw [hcx.provider]; exact hden)
    subst hs'
    have hform := shapeSymbol_collection he hk
    refine (Symbol.declaredIn_reference hcx.package hform.ns hform.references).trans ((ih hc').trans ?_)
    refine ⟨fun hd => .element hid hs he hd, fun hd => ?_⟩
    rcases hd.of_shape hcx hid hs with ⟨e, he', hd⟩ | ⟨type, hkind⟩ | ⟨-, he'⟩ | ⟨-, -, service, hkind⟩
    · rw [he] at he'
      cases he'
      exact hd
    · rw [hkind] at he
      cases he
    · rw [he] at he'
      cases he'
    · rw [hkind] at he
      cases he

/-! ### Schemas -/

/-- The schema of a shape is declared for the prelude, for recursive shapes and for emitted ones. -/
theorem schema_declaredIn (hc : t.cached? id = some s) (hid : id.member = none) (hs : cx.model.get? id = some shape)
    (hp : s.property? Symbol.schemaRole = some (Naming.schema cx.package id)) :
    (Naming.schema cx.package id).DeclaredIn cx.package names ↔
      id.isPrelude = true ∨ id ∈ cx.order.recursive ∨ cx.Emits shape := by
  have hsym : cx.sym id = s := Context.sym_eq (h.sound.faithful id s hc)
  by_cases hpre : id.isPrelude = true
  · have hforeign : isForeign "smithy_core.prelude" = true := rfl
    rw [Naming.schema, if_pos hpre]
    exact iff_of_true (Symbol.declaredIn_of_foreign hcx.package rfl hforeign) (.inl hpre)
  · have hns : (Naming.schema cx.package id).ns = cx.package ++ "." ++ schemasModule := by
      rw [Naming.schema, if_neg hpre]
      rfl
    have hfile : (Naming.schema cx.package id).file.isSome = true := by
      rw [Naming.schema, if_neg hpre]
      rfl
    have hname : schemaName cx id = (cx.package ++ "." ++ schemasModule, (Naming.schema cx.package id).name) := by
      unfold schemaName Context.helper
      rw [hsym, hp, ← hns]
      rfl
    have hhas : cx.HasSchema id ↔ id ∈ cx.order.recursive ∨ cx.Emits shape := by
      refine or_congr_right ⟨?_, fun he => ⟨shape, he, ?_⟩⟩
      · rintro ⟨shape', he, rfl⟩
        rw [he.2.1] at hs
        cases hs
        exact he
      · exact Model.shape_id hs hid
    rw [Symbol.declaredIn_module (by rw [Naming.schema, if_neg hpre]; rfl) (by simp [submodules]) hns,
      or_iff_right hpre, ← hhas, ← hname]
    refine ⟨fun hn => ?_, fun hd => ?_⟩
    · rw [hname] at hn
      refine h.hasSchema_of_mem_schemas hcx ?_ hn
      rw [← hns]
      exact h.owns_of_cached hc (Provider.standsFor?_of_no_member hid) (Symbol.mem_declarations_property hp hfile)
    · have hmem := schemaName_mem hd
      rw [hname] at hmem ⊢
      exact (h.types schemasModule (by simp) _).2 hmem

/-- **The schema of an id is there and declared exactly under the condition.** -/
theorem schemaDeclared_iff (hc : t.cached? id = some s) :
    (∃ schema, s.property? Symbol.schemaRole = some schema ∧ schema.DeclaredIn cx.package names) ↔
      cx.SchemaDeclared id := by
  -- shapes have schemas of their own; members come down to them by induction
  have hshape : ∀ {id s shape}, t.cached? id = some s → id.member = none → cx.model.get? id = some shape →
      ((∃ schema, s.property? Symbol.schemaRole = some schema ∧ schema.DeclaredIn cx.package names) ↔
        cx.SchemaDeclared id) := by
    intro id s shape hc hid hs
    have hp := hcx.schema? (h.sound.faithful id s hc) hid hs
    constructor
    · rintro ⟨helper, hhelper, hd⟩
      rw [hp] at hhelper
      split at hhelper
      · rename_i hschema
        cases hhelper
        rw [if_pos hschema] at hp
        exact .self hid hs hschema ((h.schema_declaredIn hcx hc hid hs hp).1 hd)
      · cases hhelper
    · intro hd
      cases hd with
      | member hst =>
        rw [Provider.standsFor?_of_no_member hid] at hst
        cases hst
      | self _ hs' hschema hd =>
        rw [hs] at hs'
        cases hs'
        rw [if_pos hschema] at hp
        exact ⟨_, hp, (h.schema_declaredIn hcx hc hid hs hp).2 hd⟩
  have hden := h.sound.faithful id s hc
  rw [hcx.provider] at hden
  induction hden with
  | standsFor hst hden ih =>
    have hc' := h.cached_target hc hst
    refine (ih hc').trans ⟨fun hd => .member hst hd, fun hd => ?_⟩
    cases hd with
    | member hst' hd =>
      rw [hst] at hst'
      cases hst'
      exact hd
    | self hid =>
      rw [Provider.standsFor?_of_no_member hid] at hst
      cases hst
  | variant hid hs hk =>
    refine ⟨fun ⟨_, hp, _⟩ => (by cases hp), fun hd => ?_⟩
    cases hd with
    | member hst =>
      rw [Provider.standsFor?_of_union hs hk] at hst
      cases hst
    | self hnone =>
      rw [hid] at hnone
      cases hnone
  | plain hid hs | collection hid hs => exact hshape hc hid hs

/-! ### Functions -/

/-- A helper in the models module is declared exactly if its shape is emitted. -/
theorem helper_declaredIn {role text : String} (hc : t.cached? id = some s) (hid : id.member = none)
    (hs : cx.model.get? id = some shape) (hp : s.property? role = some (modelClass cx.package text))
    (hfree : text ∉ preambleNames cx.model)
    (hmodel : cx.Emits shape → (cx.package ++ "." ++ modelsModule, text) ∈ modelNames cx shape) :
    (modelClass cx.package text).DeclaredIn cx.package names ↔ cx.Emits shape := by
  have ho := h.owns_of_cached hc (Provider.standsFor?_of_no_member hid) (Symbol.mem_declarations_property hp rfl)
  rw [Symbol.declaredIn_module rfl (by simp [submodules]) rfl]
  exact h.mem_models_iff hcx ho hs hfree hmodel

/-- The functions of a collection are declared exactly if it is emitted. -/
theorem functions_declaredIn {e : Member} {element : Symbol} (hc : t.cached? id = some s) (hid : id.member = none)
    (hs : cx.model.get? id = some shape) (he : shape.kind.element? = some e)
    (hform : CollectionForm cx.package cx.model id e.target element s) (hconverts : cx.model.converts e.target = true) :
    ((modelClass cx.package ("_serialize_" ++ Text.snakeCase id.name)).DeclaredIn cx.package names ↔ cx.Emits shape) ∧
      ((modelClass cx.package ("_deserialize_" ++ Text.snakeCase id.name)).DeclaredIn cx.package names ↔
        cx.Emits shape) := by
  have hwrite := hform.serializer?
  have hread := hform.deserializer?
  rw [if_pos hconverts] at hwrite hread
  have hshape := Model.shape_id hs hid
  have hsym : cx.sym shape.id = s := by
    rw [hshape]
    exact Context.sym_eq (h.sound.faithful id s hc)
  have hfunctions : modelNames cx shape = functionNames cx shape.id := by
    have hconverted : cx.converted shape.id = true := by
      rw [Context.converted_eq (by rw [hsym, hshape]; exact hform)]
      exact hconverts
    cases hk : shape.kind <;> rw [hk] at he <;> cases he <;> simp [modelNames, hk, hconverted]
  obtain ⟨hfree, hfree'⟩ := function_not_mem (Text.snakeCase id.name) cx.model
  have hnames : functionNames cx shape.id =
      [(cx.package ++ "." ++ modelsModule, "_serialize_" ++ Text.snakeCase id.name),
        (cx.package ++ "." ++ modelsModule, "_deserialize_" ++ Text.snakeCase id.name)] := by
    unfold functionNames Context.helper
    rw [hsym, hwrite, hread]
    rfl
  constructor
  · exact h.helper_declaredIn hcx hc hid hs hwrite hfree fun _ => by simp [hfunctions, hnames]
  · exact h.helper_declaredIn hcx hc hid hs hread hfree' fun _ => by simp [hfunctions, hnames]

/-- **The function that writes an id's values is declared, if there is one, exactly under the condition.** -/
theorem serializerDeclared_iff (hc : t.cached? id = some s) :
    (∀ helper, s.property? Symbol.serializerRole = some helper → helper.DeclaredIn cx.package names) ↔
      cx.FunctionsDeclared id := by
  have hden := h.sound.faithful id s hc
  rw [hcx.provider] at hden
  induction hden with
  | standsFor hst hden ih =>
    have hc' := h.cached_target hc hst
    exact (ih hc').trans ⟨fun hd => .member hst hd, fun hd => hd.of_standsFor hst⟩
  | variant hid hs hk =>
    refine iff_of_true (fun helper hp => (by cases hp)) (.self (Provider.standsFor?_of_union hs hk) ?_)
    intro _ _ hnone
    rw [hid] at hnone
    cases hnone
  | plain hid hs he hk =>
    refine iff_of_true (fun helper hp => ?_) (.self (Provider.standsFor?_of_no_member hid) ?_)
    · rw [(shapeSymbol_helper he hk).1] at hp
      cases hp
    · intro shape' e _ hs' he'
      rw [hs] at hs'
      cases hs'
      rw [he] at he'
      cases he'
  | @collection id shape e element s hid hs he _ hk =>
    have hform := shapeSymbol_collection he hk
    constructor
    · intro hd
      refine .self (Provider.standsFor?_of_no_member hid) fun shape' e' _ hs' he' hconverts => ?_
      rw [hs] at hs'
      cases hs'
      rw [he] at he'
      cases he'
      have hwrite := hform.serializer?
      rw [if_pos hconverts] at hwrite
      exact (h.functions_declaredIn hcx hc hid hs he hform hconverts).1.1 (hd _ hwrite)
    · intro hd helper hp
      have hwrite := hp.symm.trans hform.serializer?
      split at hwrite
      · rename_i hconverts
        cases hwrite
        exact (h.functions_declaredIn hcx hc hid hs he hform hconverts).1.2 (hd.of_shape hid hs he hconverts)
      · cases hwrite

/-- The helper that reads an id's values is declared, if there is one, where its type and its functions are. -/
theorem deserializerDeclared (hc : t.cached? id = some s) (hn : cx.NameDeclared id) (hf : cx.FunctionsDeclared id)
    {helper : Symbol} (hp : s.property? Symbol.deserializerRole = some helper) :
    helper.DeclaredIn cx.package names := by
  have hden := h.sound.faithful id s hc
  rw [hcx.provider] at hden
  induction hden with
  | standsFor hst hden ih =>
    exact ih (h.cached_target hc hst) (hn.of_standsFor hcx hst) (hf.of_standsFor hst) hp
  | variant => cases hp
  | @plain id shape s hid hs he hk =>
    rcases (shapeSymbol_helper he hk).2 with hnone | ⟨members, hkind, hs'⟩
    · have hp' : s.property? Symbol.deserializerRole = some helper := hp
      rw [hnone] at hp'
      cases hp'
    · subst hs'
      have hread : (unionType cx.package id).property? Symbol.deserializerRole =
          some (modelClass cx.package ("_" ++ className id.name ++ "Deserializer")) := by
        simp only [unionType, Symbol.property?_withProperty]
        rfl
      cases hread.symm.trans hp
      have hemit : cx.Emits shape := by
        refine (hn.emits_or_client hcx hid hs he (by simp [hkind])).resolve_right ?_
        rintro ⟨-, -, service, hkind'⟩
        rw [hkind] at hkind'
        cases hkind'
      have hsym : cx.sym shape.id = unionType cx.package shape.id := hcx.sym_plain hemit.id_member hemit.2.1 hkind rfl rfl
      rw [Model.shape_id hs hid] at hsym
      rw [Symbol.declaredIn_module rfl (by simp [submodules]) rfl, h.types modelsModule (by simp)]
      refine modelNames_mem hemit ?_
      simp only [modelNames, hkind, unionNames, Context.helper, Model.shape_id hs hid, hsym, hread, List.map_append,
        List.mem_append]
      exact .inr (List.mem_map.2 ⟨_, by simp, rfl⟩)
  | @collection id shape e element s hid hs he _ hk =>
    have hform := shapeSymbol_collection he hk
    have hread := hp.symm.trans hform.deserializer?
    split at hread
    · rename_i hconverts
      cases hread
      exact (h.functions_declaredIn hcx hc hid hs he hform hconverts).2.2 (hf.of_shape hid hs he hconverts)
    · cases hread

end Finished

end ClientGen
