import ClientGen.Proofs.StandardRun

/-!
# Which packages are closed

A package is closed if every name that a file mentions, and that is in one of the package's modules, is defined
there. Not every run yields a closed package: nothing is declared for the unit type of the prelude or for shapes
that define traits, yet members may target them.

* `closed_iff_targetsDeclared`: a run that succeeds yields a closed package exactly under the condition.
-/

namespace ClientGen

open Naming Package

/-- The members of a shape whose values get a type or are converted: all of a structure or union, and the element
of a collection that has functions. -/
def Context.valueMembers (cx : Context) (shape : Shape) : List Member :=
  match shape.kind with
  | .struct members | .union members => members
  | .list e | .set e | .map _ e => if cx.model.converts e.target then [e] else []
  | _ => []

/-- A run in which symbols are good if they are declared, whatever module mentions them. -/
def Reading.declared (cx : Context) (names : List (String × String)) (here : String) : Reading :=
  ⟨cx, here, fun _ => Symbol.DeclaredIn cx.package names⟩

theorem target_mem_entryTargets {kind : Kind} {m : Member} (h : m ∈ kind.members) : m.target ∈ entryTargets kind := by
  cases kind with
  | enumeration values => simp [Kind.members] at h
  | _ => exact List.mem_map.2 ⟨m, h, rfl⟩

theorem declaredIn_library {cx : Context} (hcx : cx.Standard) {names : List (String × String)} {s : Symbol}
    (hs : s ∈ Library.all) : s.DeclaredIn cx.package names :=
  Symbol.declaredIn_of_foreign hcx.package (library_foreign hs).2 (library_foreign hs).1

namespace Finished

variable {cx : Context} {names : List (String × String)} {t : Table} (hcx : cx.Standard)
  (h : Finished cx names t) {id : ShapeId}

include hcx h

theorem valueGood_iff (hc : t.cached? id = some (cx.sym id)) (here : String) :
    (Reading.declared cx names here).ValueGood id ↔ cx.ValueDeclared id := by
  constructor
  · rintro ⟨hname, hwrite, -⟩
    exact ⟨(h.nameDeclared_iff hcx hc).1 hname, fun shape hs he =>
      (h.serializerDeclared_iff hcx hc).1 (hwrite shape hs he)⟩
  · rintro ⟨hname, hfunctions⟩
    have hgood := (h.nameDeclared_iff hcx hc).2 hname
    refine ⟨hgood, fun shape hs he => (h.serializerDeclared_iff hcx hc).2 (hfunctions shape hs he), fun shape hs => ?_⟩
    change cx.model.get? id = some shape at hs
    cases hk : shape.kind with
    | struct members | enumeration values => exact hgood
    | union members =>
      refine fun helper hp => h.deserializerDeclared hcx hc hname ?_ hp
      refine .self (Provider.standsFor?_of_union hs hk) fun shape' e _ hs' he' => ?_
      rw [hs] at hs'
      cases hs'
      rw [hk] at he'
      cases he'
    | list e | set e | map k e =>
      exact fun helper hp => h.deserializerDeclared hcx hc hname (hfunctions shape hs (by rw [hk]; rfl)) hp
    | scalar type | operation op | service service => trivial

theorem shapeGood_iff {shape : Shape} (he : cx.Emits shape) (here : String) :
    (Reading.declared cx names here).ShapeGood shape ↔
      (∀ target ∈ entryTargets shape.kind, cx.SchemaDeclared target) ∧
        ∀ m ∈ cx.valueMembers shape, cx.ValueDeclared m.target := by
  have hknown : ∀ target ∈ entryTargets shape.kind, t.cached? target = some (cx.sym target) := by
    intro target htarget
    exact h.known_of_emits he (by simp [lookups, htarget])
  have hvalue : ∀ m ∈ shape.members, t.cached? m.target = some (cx.sym m.target) :=
    fun m hm => hknown m.target (target_mem_entryTargets hm)
  refine and_congr (forall₂_congr fun target htarget => h.schemaDeclared_iff hcx (hknown target htarget)) ?_
  have hmembers : ∀ members, members ⊆ shape.members →
      ((∀ m ∈ members, (Reading.declared cx names (cx.home shape)).ValueGood m.target) ↔
      ∀ m ∈ members, cx.ValueDeclared m.target) :=
    fun members hsub => forall₂_congr fun m hm => h.valueGood_iff hcx (hvalue m (hsub hm)) _
  -- a collection has functions only if its elements are converted
  have hcollection : ∀ e, shape.kind.element? = some e → e ∈ shape.members →
      ((cx.converted shape.id = true → (Reading.declared cx names (cx.home shape)).Good (cx.sym shape.id) ∧
        (Reading.declared cx names (cx.home shape)).WriteGood e.target ∧
          (Reading.declared cx names (cx.home shape)).ReadGood e.target) ↔
      ∀ m ∈ (if cx.model.converts e.target then [e] else []), cx.ValueDeclared m.target) := by
    intro e hk hm
    have hform := h.collection_of_cached hcx (h.known_of_emits he (by simp [lookups])) he.id_member he.2.1 hk
    have hname : (Reading.declared cx names (cx.home shape)).Good (cx.sym shape.id) ↔
        (Reading.declared cx names (cx.home shape)).Good (cx.sym e.target) :=
      Symbol.declaredIn_reference hcx.package hform.ns hform.references
    rw [Context.converted_eq hform, hname]
    cases cx.model.converts e.target with
    | false => simp
    | true =>
      simp only [forall_const, if_true, List.mem_singleton, forall_eq]
      exact h.valueGood_iff hcx (hvalue e hm) _
  cases hk : shape.kind with
  | struct members =>
    simp only [Context.valueMembers, hk]
    exact hmembers members (by simp [Shape.members, hk, Kind.members])
  | union members =>
    have hsub : members ⊆ shape.members := by simp [Shape.members, hk, Kind.members]
    have hvariant : ∀ m ∈ members, (Reading.declared cx names (cx.home shape)).Good (cx.sym m.id) := by
      intro m hm
      obtain ⟨hmember, hs⟩ := hcx.member_id he (hsub hm)
      have hc : t.cached? m.id = some (cx.sym m.id) := by
        refine h.known_of_emits he ?_
        simp only [lookups, hk]
        exact List.mem_append_right _ (List.mem_map.2 ⟨m, hm, rfl⟩)
      exact (h.nameDeclared_iff hcx hc).2 (.variant hmember hs hk (.inl he))
    simp only [Context.valueMembers, hk]
    rw [← hmembers members hsub]
    exact ⟨fun hall m hm => (hall m hm).2, fun hall m hm => ⟨hvariant m hm, hall m hm⟩⟩
  | list e | set e | map k e =>
    simp only [Context.valueMembers, hk]
    exact hcollection e (by rw [hk]; rfl) (by simp [Shape.members, hk, Kind.members])
  | enumeration values | scalar type | operation op | service service => simp [Context.valueMembers, hk]

/-- What modules of types take from elsewhere, and what the models module starts with, is declared. -/
theorem grounded (here : String) :
    (Reading.declared cx names here).Grounded ∧ (Reading.declared cx names here).SchemasGrounded := by
  have hpreamble : ∀ name ∈ preambleNames cx.model, (modelClass cx.package name).DeclaredIn cx.package names := by
    intro name hname
    rw [Symbol.declaredIn_module rfl (by simp [submodules]) rfl, h.types modelsModule (by simp)]
    exact preamble_mem hname
  refine ⟨⟨fun s hs => declaredIn_library hcx (by simp [Library.all, hs]), ?_, ?_⟩,
    ⟨fun s hs => declaredIn_library hcx (by simp [Library.all, hs])⟩⟩
  · exact hpreamble "ApiError" (by simp [preambleNames])
  · intro htimestamp
    change hasTimestamp cx.model = true at htimestamp
    exact hpreamble "_DEFAULT_TIMESTAMP" (by simp [preambleNames, htimestamp])

theorem ownGood {shape : Shape} (he : cx.Emits shape) (here : String) : (Reading.declared cx names here).OwnGood shape := by
  have hc := h.known_of_emits he (List.mem_cons_self : shape.id ∈ lookups shape)
  have hconstant : (cx.helper shape.id Symbol.schemaRole).DeclaredIn cx.package names := by
    have hschema : shape.hasSchema = true := by
      have hemitted := he.2.2
      cases hk : shape.kind <;> simp [Shape.isEmitted, hk] at hemitted <;> simp [Shape.hasSchema, hk]
    have hp := hcx.schema? (h.sound.faithful _ _ hc) he.id_member he.2.1
    rw [if_pos hschema] at hp
    have hhelper : cx.helper shape.id Symbol.schemaRole = Naming.schema cx.package shape.id := by
      unfold Context.helper
      rw [hp]
      rfl
    rw [hhelper]
    exact (h.schema_declaredIn hcx hc he.id_member he.2.1 hp).2 (.inr (.inr he))
  refine ⟨(h.grounded hcx _).2, hconstant, (h.grounded hcx _).1, hconstant, ?_⟩
  · intro members hk
    have hsym : cx.sym shape.id = unionType cx.package shape.id := hcx.sym_plain he.id_member he.2.1 hk rfl rfl
    refine ⟨(h.nameDeclared_iff hcx hc).2 (.emitted he (by rw [hk]; rfl)), ?_⟩
    have hhelper : cx.helper shape.id Symbol.unknownRole = modelClass cx.package (className shape.id.name ++ "Unknown") := by
      unfold Context.helper
      rw [hsym]
      simp [unionType]
    have hmem : (cx.package ++ "." ++ modelsModule, (cx.helper shape.id Symbol.unknownRole).name) ∈ modelNames cx shape := by
      have hns : (cx.sym shape.id).ns = cx.package ++ "." ++ modelsModule := by rw [hsym]; rfl
      simp [modelNames, hk, unionNames, hns]
    change (cx.helper shape.id Symbol.unknownRole).DeclaredIn cx.package names
    rw [hhelper] at hmem ⊢
    rw [Symbol.declaredIn_module rfl (by simp [submodules]) rfl, h.types modelsModule (by simp)]
    exact modelNames_mem he hmem

end Finished

namespace Package

section Client

variable {cx : Context} {protocol : Option HttpProtocol} {operations : List (Shape × Operation)}
  {resolution : AuthResolution} {schemes : List AuthScheme} {t : Table}

theorem clientClass_ns (hcx : cx.Standard) : (cx.sym cx.service.id).ns = cx.package ++ "." ++ clientModule := by
  obtain ⟨service, hk⟩ := hcx.serviceKind
  have hsym : cx.sym cx.service.id = serviceClient cx.package cx.service.id :=
    hcx.sym_plain hcx.service_member hcx.service hk rfl rfl
  rw [hsym]
  rfl

theorem mem_clientNames (hcx : cx.Standard) {sub text : String}
    (h : (cx.package ++ "." ++ sub, text) ∈ clientNames cx protocol operations resolution schemes) :
    (sub = clientModule ∧ text = (cx.sym cx.service.id).name) ∨ (sub = authModule ∧ text ∈ authNames resolution schemes) ∨
      sub ∈ [configModule, serializeModule, deserializeModule] := by
  rw [clientNames, List.mem_append, List.mem_append, List.mem_append] at h
  rcases h with h | h | h | h
  · cases protocol with
    | none => simp [protocolNames] at h
    | some p =>
      simp only [protocolNames, List.mem_append, List.mem_map, List.mem_singleton] at h
      rcases h with ⟨o, -, h⟩ | ⟨o, -, h⟩ | h <;> simp [module_inj (Prod.mk.inj h).1]
  · obtain ⟨name, hname, h⟩ := List.mem_map.1 h
    obtain ⟨hns, rfl⟩ := Prod.mk.inj h
    exact .inr (.inl ⟨(module_inj hns).symm, hname⟩)
  · obtain ⟨name, -, h⟩ := List.mem_map.1 h
    simp [← module_inj (Prod.mk.inj h).1]
  · rw [List.mem_singleton, clientClass_ns hcx] at h
    obtain ⟨hns, rfl⟩ := Prod.mk.inj h
    exact .inl ⟨module_inj hns, rfl⟩

theorem finished_types (hcx : cx.Standard) (h : TypesKnown cx t) (hartifact : cx.settings.artifact = .types) :
    Finished cx (typeNames cx) t where
  toTypesKnown := h
  types := fun _ _ _ => Iff.rfl
  client := by
    intro name
    refine iff_of_false (fun hn => ?_) (by simp [hartifact])
    have hne : clientModule ≠ modelsModule ∧ clientModule ≠ schemasModule := by decide
    rcases h.typeNames_module hcx hn (by simp [modules, submodules]) with hns | hns
    · exact hne.1 (module_inj hns)
    · exact hne.2 (module_inj hns)
  service := by simp [hartifact]

theorem finished_client (hcx : cx.Standard) (h : TypesKnown cx t) (hartifact : cx.settings.artifact = .client)
    (hservice : t.cached? cx.service.id = some (cx.sym cx.service.id)) :
    Finished cx (typeNames cx ++ clientNames cx protocol operations resolution schemes) t where
  toTypesKnown := h
  types := by
    intro sub hsub name
    refine ⟨fun hn => (List.mem_append.1 hn).resolve_right fun hn => ?_, List.mem_append_left _⟩
    have hne : ∀ sub ∈ [modelsModule, schemasModule],
        sub ≠ clientModule ∧ sub ≠ authModule ∧ sub ∉ [configModule, serializeModule, deserializeModule] := by decide
    obtain ⟨hclient, hauth, hrest⟩ := hne sub hsub
    rcases mem_clientNames hcx hn with ⟨hsub, -⟩ | ⟨hsub, -⟩ | hsub
    · exact hclient hsub
    · exact hauth hsub
    · exact hrest hsub
  client := by
    intro name
    constructor
    · intro hn
      refine ⟨hartifact, ?_⟩
      rcases List.mem_append.1 hn with hn | hn
      · have hne : clientModule ≠ modelsModule ∧ clientModule ≠ schemasModule := by decide
        rcases h.typeNames_module hcx hn (by simp [modules, submodules]) with hns | hns
        · exact absurd (module_inj hns) hne.1
        · exact absurd (module_inj hns) hne.2
      · have hne : clientModule ≠ authModule ∧ clientModule ∉ [configModule, serializeModule, deserializeModule] := by
          decide
        rcases mem_clientNames hcx hn with ⟨-, hname⟩ | ⟨hsub, -⟩ | hsub
        · exact hname
        · exact absurd hsub hne.1
        · exact absurd hsub hne.2
    · rintro ⟨-, rfl⟩
      refine List.mem_append_right _ ?_
      rw [← clientClass_ns hcx]
      simp [clientNames]
  service := fun _ => hservice

theorem modulesGrounded (hcx : cx.Standard)
    (h : Finished cx (typeNames cx ++ clientNames cx protocol operations resolution schemes) t)
    (hcodec : ∀ p, protocol = some p → isForeign p.codec.ns = true ∧ p.codec.references = []) (here : String) :
    (Reading.declared cx (typeNames cx ++ clientNames cx protocol operations resolution schemes) here).ModulesGrounded
      protocol operations := by
  have hlibrary : ∀ {s}, s ∈ Library.all → s.DeclaredIn cx.package
      (typeNames cx ++ clientNames cx protocol operations resolution schemes) := declaredIn_library hcx
  have hown : ∀ sub name : String, sub ∈ submodules →
      (cx.package ++ "." ++ sub, name) ∈ clientNames cx protocol operations resolution schemes →
      (declared cx.package name sub).DeclaredIn cx.package
        (typeNames cx ++ clientNames cx protocol operations resolution schemes) := by
    intro sub name hsub hn
    rw [Symbol.declaredIn_module rfl hsub rfl]
    exact List.mem_append_right _ hn
  have hpreamble : ∀ name ∈ preambleNames cx.model, (modelClass cx.package name).DeclaredIn cx.package
      (typeNames cx ++ clientNames cx protocol operations resolution schemes) := by
    intro name hname
    rw [Symbol.declaredIn_module rfl (by simp [submodules]) rfl, h.types modelsModule (by simp)]
    exact preamble_mem hname
  have hconfig := hown configModule "Config" (by simp [submodules]) (by simp [clientNames, config, declared])
  have hplugin := hown configModule "Plugin" (by simp [submodules]) (by simp [clientNames, config, declared])
  have hresolver := hown authModule "HTTPAuthSchemeResolver" (by simp [submodules])
    (by simp [clientNames, authNames, authResolver, declared])
  have hservice := hpreamble "ServiceError" (by simp [preambleNames])
  have hapi := hpreamble "ApiError" (by simp [preambleNames])
  have hunknown := hpreamble "UnknownApiError" (by simp [preambleNames])
  have hforeign : ∀ s : Symbol, isForeign s.ns = true ∧ s.references = [] → s.DeclaredIn cx.package
      (typeNames cx ++ clientNames cx protocol operations resolution schemes) :=
    fun s hs => Symbol.declaredIn_of_foreign hcx.package hs.2 hs.1
  refine {
    auth := hlibrary (by simp [Library.all])
    config := ⟨fun s hs => hlibrary (by simp [Library.all, hs]), fun name => hforeign _ ⟨rfl, rfl⟩, hconfig, hresolver⟩
    schemes := fun scheme hscheme symbol hsymbol => hforeign _ (builtinScheme_foreign hscheme hsymbol)
    client := ⟨fun s hs => hlibrary (by simp [Library.all, hs]), hconfig, hplugin, hservice, hapi⟩
    transfer := ?_
    writers := ⟨fun s hs => hlibrary (by simp [Library.all, hs]), hconfig⟩
    readers := ⟨fun s hs => hlibrary (by simp [Library.all, hs]), hconfig, hapi, hunknown⟩
    codec := fun p hp => ⟨hforeign _ (hcodec p hp), hforeign _ (hcodec p hp)⟩ }
  intro hprotocol o ho
  obtain ⟨p, rfl⟩ := Option.isSome_iff_exists.1 hprotocol
  constructor
  · refine hown _ _ (by simp [submodules]) (List.mem_append_left _ (List.mem_append_left _ ?_))
    exact List.mem_map.2 ⟨o, ho, rfl⟩
  · refine hown _ _ (by simp [submodules]) (List.mem_append_left _ (List.mem_append_right _ (List.mem_append_left _ ?_)))
    exact List.mem_map.2 ⟨o, ho, rfl⟩

theorem authNames_ne (hschemes : ∀ s ∈ schemes, s ∈ builtinSchemes) {name : String}
    (hn : name ∈ authNames resolution schemes) : name ≠ Library.authParams.name := by
  rcases List.mem_append.1 hn with hn | hn
  · obtain ⟨id, -, hn⟩ := List.mem_flatMap.1 hn
    obtain ⟨scheme, hfind, rfl⟩ := Option.map_eq_some_iff.1 (Option.mem_toList.1 hn)
    have hbuiltin := hschemes scheme (List.mem_of_find?_eq_some hfind)
    simp only [builtinSchemes, List.mem_cons, List.not_mem_nil, or_false] at hbuiltin
    rcases hbuiltin with rfl | rfl | rfl <;> decide
  · rw [List.mem_singleton.1 hn]
    decide

/-- The names that auth schemes are chosen with are not defined by any package, so they must not be in one of
its modules. -/
theorem choiceGood_iff (hcx : cx.Standard) (h : TypesKnown cx t) (hschemes : ∀ s ∈ schemes, s ∈ builtinSchemes)
    (here : String) (transfers : Bool) :
    (Reading.declared cx (typeNames cx ++ clientNames cx protocol operations resolution schemes) here).ChoiceGood
      transfers ↔ cx.package ≠ Library.corePackage := by
  constructor
  · rintro ⟨⟨hparams, -⟩, -⟩ hcore
    have hns : Library.authParams.ns = cx.package ++ "." ++ authModule := by rw [hcore]; rfl
    have hn := (Symbol.declaredIn_module rfl (by simp [submodules]) hns).1 hparams
    rcases List.mem_append.1 hn with hn | hn
    · have hne : authModule ≠ modelsModule ∧ authModule ≠ schemasModule := by decide
      rcases h.typeNames_module hcx hn (by simp [modules, submodules]) with hsub | hsub
      · exact hne.1 (module_inj hsub)
      · exact hne.2 (module_inj hsub)
    · have hne : authModule ≠ clientModule ∧ authModule ∉ [configModule, serializeModule, deserializeModule] := by decide
      rcases mem_clientNames hcx hn with ⟨hsub, -⟩ | ⟨-, hname⟩ | hsub
      · exact hne.1 hsub
      · exact authNames_ne hschemes hname rfl
      · exact hne.2 hsub
  · intro hne
    have hforeign : "smithy_core.auth" ∉ modules cx.package := fun hmem => hne ((auth_mem_modules hcx.package).1 hmem)
    have hparams : Library.authParams.DeclaredIn cx.package
        (typeNames cx ++ clientNames cx protocol operations resolution schemes) :=
      (Symbol.declaredIn_iff rfl).2 fun hmem => absurd hmem hforeign
    exact ⟨⟨hparams, (Symbol.declaredIn_iff rfl).2 fun hmem => absurd hmem hforeign⟩, fun _ => hparams⟩

end Client

/-! ### Runs -/

/-- The edits of a run. -/
def Run.edits (run : Run) : List Edit := (run.plan {}).out

/-- The names that the edits of a run define, each with its module. -/
def Run.definedNames (run : Run) : List (String × String) := run.edits.flatMap View.edits.definitions

/-- **Declaration closure**: whatever a file of the package mentions, and is in one of the package's modules, is
defined there. -/
def Run.Closed (run : Run) : Prop :=
  ∀ e ∈ run.edits, ∀ s ∈ View.edits.mentions e, s.DeclaredIn run.cx.package run.definedNames

/-- **What closure takes**: declarations for the targets of members and for those that operations take, return and
raise. -/
structure Run.TargetsDeclared (run : Run) : Prop where
  schemas : ∀ shape, run.cx.Emits shape → ∀ target ∈ entryTargets shape.kind, run.cx.SchemaDeclared target
  values : ∀ shape, run.cx.Emits shape → ∀ m ∈ run.cx.valueMembers shape, run.cx.ValueDeclared m.target
  package : run.cx.settings.artifact = .client → run.cx.package ≠ Library.corePackage
  operations : run.cx.settings.artifact = .client → ∀ operations, run.cx.operations = .ok operations →
    ∀ o ∈ operations, (∀ target ∈ o.2.valueTargets, run.cx.NameDeclared target) ∧
      (run.protocol.isSome = true → ∀ target ∈ operationErrors run.cx.service o.2, run.cx.NameDeclared target)

/-- A run in which something is asked of the symbols that its modules mention. -/
@[reducible] def Run.reading (run : Run) (GoodIn : String → Symbol → Prop) : Reading := ⟨run.cx, "", GoodIn⟩

theorem reading_true (run : Run) (protocol : Option HttpProtocol) (operations : List (Shape × Operation)) :
    (run.reading fun _ _ => True).TypesGrounded ∧ (∀ shape, (run.reading fun _ _ => True).OwnGood shape) ∧
      (run.reading fun _ _ => True).ModulesGrounded protocol operations := by
  have hmodels : ∀ here, ((run.reading fun _ _ => True).inside here).Grounded :=
    fun here => ⟨fun _ _ => trivial, trivial, fun _ => trivial⟩
  have hschemas : ∀ here, ((run.reading fun _ _ => True).inside here).SchemasGrounded := fun here => ⟨fun _ _ => trivial⟩
  refine ⟨⟨hmodels _, fun _ _ => hschemas _⟩, fun shape => ⟨hschemas _, trivial, hmodels _, trivial, ?_⟩, ?_⟩
  · exact fun _ _ => ⟨trivial, trivial⟩
  · exact {
      auth := trivial
      config := ⟨fun _ _ => trivial, fun _ => trivial, trivial, trivial⟩
      schemes := fun _ _ _ _ => trivial
      client := ⟨fun _ _ => trivial, trivial, trivial, trivial, trivial⟩
      transfer := fun _ _ _ => ⟨trivial, trivial⟩
      writers := ⟨fun _ _ => trivial, trivial⟩
      readers := ⟨fun _ _ => trivial, trivial, trivial, trivial⟩
      codec := fun _ _ => ⟨trivial, trivial⟩ }

theorem shapesGood_iff {cx : Context} {names : List (String × String)} {t : Table} (hcx : cx.Standard)
    (h : Finished cx names t) (here : String) :
    (∀ shape, cx.Emits shape → (Reading.declared cx names here).ShapeGood shape) ↔
      (∀ shape, cx.Emits shape → ∀ target ∈ entryTargets shape.kind, cx.SchemaDeclared target) ∧
        ∀ shape, cx.Emits shape → ∀ m ∈ cx.valueMembers shape, cx.ValueDeclared m.target := by
  rw [← forall₂_and]
  exact forall₂_congr fun shape he => h.shapeGood_iff hcx he here

section Runs

variable {run : Run} {settings : Settings} {client : Option Symbol} (hrun : run.Builtin settings)
  (hok : (run.plan {}).result = .ok client)

theorem resolution_of_ok (hok : (run.plan {}).result = .ok client) (hartifact : run.cx.settings.artifact = .client) :
    ∃ operations resolution, run.cx.operations = .ok operations ∧
      AuthResolution.of run.cx.model run.cx.service (operations.map (·.1))
        ((registeredSchemes run.plugins).map AuthScheme.id) = .ok resolution := by
  unfold Run.plan packageEdits at hok
  rw [hartifact] at hok
  obtain ⟨_, -, hok⟩ := Plan.bind_ok hok
  obtain ⟨_, hok, -⟩ := Plan.bind_ok hok
  obtain ⟨_, -, hok⟩ := Plan.bind_ok hok
  obtain ⟨operations, hops, hok⟩ := Plan.bind_ok hok
  obtain ⟨resolution, hres, -⟩ := Plan.bind_ok hok
  exact ⟨operations, resolution, hops, hres⟩

/-- What the plan of a client yields, given what its protocol is and which operations and schemes it has found. -/
theorem plan_yields (hplaced : run.cx.Placed) (hschemes : ∀ s ∈ registeredSchemes run.plugins, s ∈ builtinSchemes)
    (hproperties : ∀ c ∈ run.plugins.flatMap Plugin.properties, ∃ name, c.type = .builtin name)
    (hartifact : run.cx.settings.artifact = .client) {protocol : Option HttpProtocol}
    (hprotocol : run.protocol = protocol.map HttpProtocol.protocol) {operations : List (Shape × Operation)}
    (hops : run.cx.operations = .ok operations) {resolution : AuthResolution}
    (hres : AuthResolution.of run.cx.model run.cx.service (operations.map (·.1))
      ((registeredSchemes run.plugins).map AuthScheme.id) = .ok resolution)
    {GoodIn : String → Symbol → Prop} (htypes : (run.reading GoodIn).TypesGrounded)
    (hown : ∀ shape, run.cx.Emits shape → (run.reading GoodIn).OwnGood shape)
    (hmodules : (run.reading GoodIn).ModulesGrounded protocol operations) :
    (run.reading GoodIn).Yields .edits run.plan
      ((∀ shape, run.cx.Emits shape → (run.reading GoodIn).ShapeGood shape) ∧
        (run.reading GoodIn).ChoiceGood protocol.isSome ∧ (run.reading GoodIn).OperationsGood protocol.isSome operations)
      (typeNames run.cx ++ clientNames run.cx protocol operations resolution (registeredSchemes run.plugins))
      (typeIds run.cx ++ clientIds run.cx protocol.isSome operations) fun _ => True := by
  refine packageEdits_client hplaced hown htypes hartifact ?_
  rw [hprotocol]
  refine clientEdits_yields hmodules hops hres hschemes fun c hc => ?_
  obtain ⟨name, hname⟩ := hproperties c hc
  rw [hname]
  exact hmodules.config.builtin name

/-- Read without a condition on symbols, a plan that makes types only tells what it defines and has looked up. -/
theorem plan_names_types (hplaced : run.cx.Placed) (hok : (run.plan {}).result = .ok client)
    (hartifact : run.cx.settings.artifact = .types) : TypesKnown run.cx (run.plan {}).names ∧
      run.definedNames = typeNames run.cx ∧
      ∀ shape, run.cx.Emits shape → (run.reading fun _ _ => True).ShapeGood shape := by
  obtain ⟨htypes, hown, -⟩ := reading_true run none []
  obtain ⟨hsound, -, hgood, hdefined, hknown, -⟩ := packageEdits_types hplaced (fun shape _ => hown shape) htypes
    hartifact run.protocol run.plugins {} client (Table.sound_empty _ _) hok
  exact ⟨⟨hsound, hknown⟩, hdefined, hgood.1 fun _ _ _ _ => trivial⟩

/-- So does the plan of a client. -/
theorem plan_names_client (hplaced : run.cx.Placed) (hschemes : ∀ s ∈ registeredSchemes run.plugins, s ∈ builtinSchemes)
    (hproperties : ∀ c ∈ run.plugins.flatMap Plugin.properties, ∃ name, c.type = .builtin name)
    (hok : (run.plan {}).result = .ok client) (hartifact : run.cx.settings.artifact = .client)
    {protocol : Option HttpProtocol} (hprotocol : run.protocol = protocol.map HttpProtocol.protocol)
    {operations : List (Shape × Operation)} (hops : run.cx.operations = .ok operations) {resolution : AuthResolution}
    (hres : AuthResolution.of run.cx.model run.cx.service (operations.map (·.1))
      ((registeredSchemes run.plugins).map AuthScheme.id) = .ok resolution) :
    TypesKnown run.cx (run.plan {}).names ∧
      (∀ id ∈ clientIds run.cx protocol.isSome operations, (run.plan {}).names.cached? id = some (run.cx.sym id)) ∧
      run.definedNames =
        typeNames run.cx ++ clientNames run.cx protocol operations resolution (registeredSchemes run.plugins) ∧
      ∀ shape, run.cx.Emits shape → (run.reading fun _ _ => True).ShapeGood shape := by
  obtain ⟨htypes, hown, hmodules⟩ := reading_true run protocol operations
  obtain ⟨hsound, -, hgood, hdefined, hknown, -⟩ := plan_yields hplaced hschemes hproperties hartifact hprotocol hops hres
    htypes (fun shape _ => hown shape) hmodules {} client (Table.sound_empty _ _) hok
  exact ⟨⟨hsound, fun id hid => hknown id (List.mem_append_left _ hid)⟩,
    fun id hid => hknown id (List.mem_append_right _ hid), hdefined, (hgood.1 fun _ _ _ _ => trivial).1⟩

include hrun hok

-- Both proofs read the plan twice: first to learn the names that it defines and the symbols that it looks up,
-- then to see which of the symbols are among these names.

theorem closed_iff_types (hartifact : run.cx.settings.artifact = .types) : run.Closed ↔ run.TargetsDeclared := by
  have hcx := hrun.standard
  obtain ⟨hknown, hnames, -⟩ := plan_names_types hcx.placed hok hartifact
  have hfinished := finished_types hcx hknown hartifact
  obtain ⟨-, -, hclosed, -⟩ := packageEdits_types (r := Reading.declared run.cx (typeNames run.cx) "") hcx.placed
    (fun _ he => hfinished.ownGood hcx he _)
    ⟨(hfinished.grounded hcx _).1, fun _ _ => (hfinished.grounded hcx _).2⟩ hartifact run.protocol run.plugins {} client
    (Table.sound_empty _ _) hok
  unfold Run.Closed
  rw [hnames]
  refine hclosed.trans ((shapesGood_iff hcx hfinished _).trans ⟨?_, ?_⟩)
  · rintro ⟨hschemas, hvalues⟩
    exact ⟨hschemas, hvalues, by simp [hartifact], by simp [hartifact]⟩
  · intro h
    exact ⟨h.schemas, h.values⟩

theorem closed_iff_client (hartifact : run.cx.settings.artifact = .client) : run.Closed ↔ run.TargetsDeclared := by
  have hcx := hrun.standard
  obtain ⟨protocol, hprotocol, hbuiltin⟩ := hrun.protocol
  obtain ⟨operations, resolution, hops, hres⟩ := resolution_of_ok hok hartifact
  obtain ⟨htypes, hids, hnames, -⟩ := plan_names_client hcx.placed hrun.schemes hrun.properties hok hartifact hprotocol
    hops hres
  have hfinished : Finished run.cx run.definedNames (run.plan {}).names := by
    rw [hnames]
    exact finished_client hcx htypes hartifact (hids _ List.mem_cons_self)
  have hcodec : ∀ p, protocol = some p → isForeign p.codec.ns = true ∧ p.codec.references = [] := by
    intro p hp
    have hmem := hbuiltin p hp
    simp only [List.mem_cons, List.not_mem_nil, or_false] at hmem
    rcases hmem with rfl | rfl <;> exact ⟨rfl, rfl⟩
  have hmodules : (Reading.declared run.cx run.definedNames "").ModulesGrounded protocol operations := by
    rw [hnames] at hfinished ⊢
    exact modulesGrounded hcx hfinished hcodec ""
  have hchoice : (Reading.declared run.cx run.definedNames "").ChoiceGood protocol.isSome ↔
      run.cx.package ≠ Library.corePackage := by
    rw [hnames]
    exact choiceGood_iff hcx htypes hrun.schemes "" _
  have hname : ∀ id ∈ clientIds run.cx protocol.isSome operations,
      ((run.cx.sym id).DeclaredIn run.cx.package run.definedNames ↔ run.cx.NameDeclared id) :=
    fun id hid => hfinished.nameDeclared_iff hcx (hids id hid)
  have hground : (Reading.declared run.cx run.definedNames "").TypesGrounded :=
    ⟨(hfinished.grounded hcx _).1, fun _ _ => (hfinished.grounded hcx _).2⟩
  obtain ⟨-, -, hclosed, -⟩ := plan_yields hcx.placed hrun.schemes hrun.properties hartifact hprotocol hops hres hground
    (fun _ he => hfinished.ownGood hcx he "") hmodules {} client (Table.sound_empty _ _) hok
  have hoperations : (Reading.declared run.cx run.definedNames "").OperationsGood protocol.isSome operations ↔
      ∀ o ∈ operations, (∀ target ∈ o.2.valueTargets, run.cx.NameDeclared target) ∧
        (run.protocol.isSome = true → ∀ target ∈ operationErrors run.cx.service o.2, run.cx.NameDeclared target) := by
    have hsome : run.protocol.isSome = protocol.isSome := by rw [hprotocol, Option.isSome_map]
    rw [hsome]
    refine forall₂_congr fun o ho => ?_
    have hvalue : ∀ target ∈ o.2.valueTargets,
        ((run.cx.sym target).DeclaredIn run.cx.package run.definedNames ↔ run.cx.NameDeclared target) := by
      intro target htarget
      exact hname target (List.mem_cons_of_mem _ (List.mem_flatMap.2 ⟨o, ho,
        List.mem_append_left _ (List.mem_cons_of_mem _ htarget)⟩))
    have herror : protocol.isSome = true → ∀ target ∈ operationErrors run.cx.service o.2,
        ((run.cx.sym target).DeclaredIn run.cx.package run.definedNames ↔ run.cx.NameDeclared target) := by
      intro hp target htarget
      refine hname target (List.mem_cons_of_mem _ (List.mem_flatMap.2 ⟨o, ho, List.mem_append_right _ ?_⟩))
      rwa [if_pos hp]
    -- what a protocol mentions of an operation's values, the client class mentions too
    constructor
    · rintro ⟨hvalues, hprotocol⟩
      exact ⟨fun target ht => (hvalue target ht).1 (hvalues target ht), fun hp target ht =>
        (herror hp target ht).1 ((hprotocol hp).2 target (List.mem_append_right _ ht))⟩
    · rintro ⟨hvalues, herrors⟩
      refine ⟨fun target ht => (hvalue target ht).2 (hvalues target ht), fun hp => ⟨fun target ht => ?_, fun target ht => ?_⟩⟩
      · have hmem : target ∈ o.2.valueTargets := List.mem_append_left _ ht
        exact (hvalue target hmem).2 (hvalues target hmem)
      · rcases List.mem_append.1 ht with ht | ht
        · have hmem : target ∈ o.2.valueTargets := List.mem_append_right _ ht
          exact (hvalue target hmem).2 (hvalues target hmem)
        · exact (herror hp target ht).2 (herrors hp target ht)
  refine hclosed.trans ((and_congr (shapesGood_iff hcx hfinished "") (and_congr hchoice hoperations)).trans ⟨?_, ?_⟩)
  · rintro ⟨⟨hschemas, hvalues⟩, hpackage, hoperations⟩
    refine ⟨hschemas, hvalues, fun _ => hpackage, fun _ found hfound => ?_⟩
    rw [hops] at hfound
    cases hfound
    exact hoperations
  · intro h
    exact ⟨⟨h.schemas, h.values⟩, h.package hartifact, h.operations hartifact operations hops⟩

end Runs

/-- **Which packages are closed.** If a model names its members after the shapes that hold them, as models that are
read from documents do, a run whose plan succeeds yields a closed package exactly if the targets are declared. -/
theorem closed_iff_targetsDeclared {m : Model} (hm : m.NamesMembers) {settings : Settings} {run : Run}
    (hrun : Run.of [] m settings = .ok run) {client : Option Symbol} (hplan : (run.plan {}).result = .ok client) :
    run.Closed ↔ run.TargetsDeclared := by
  have hbuiltin := Run.of_builtin hm hrun
  cases hartifact : run.cx.settings.artifact with
  | types => exact closed_iff_types hbuiltin hplan hartifact
  | client => exact closed_iff_client hbuiltin hplan hartifact

/-- The settings of a package of types for the service `a#S`. -/
def sampleSettings : Settings where
  service := { ns := "a", name := "S" }
  module := "p"
  artifact := .types
  outputDir := ⟨"out"⟩

/-- A union with a member that holds the unit type. -/
def unitHolder : Shape where
  id := { ns := "a", name := "U" }
  kind := .union [{ id := { ns := "a", name := "U", member := some "m" }, target := Prelude.unit }]

/-- A service that takes such unions. -/
def unitUnion : Model where
  shapes := [
    { id := { ns := "a", name := "S" }, kind := .service { operations := [{ ns := "a", name := "O" }] } },
    { id := { ns := "a", name := "O" }, kind := .operation { input := some unitHolder.id } },
    unitHolder]
  distinct := by decide

/-- Its run. -/
def unitRun : Run where
  integrations := [httpAuth]
  cx := {
    model := unitUnion
    settings := sampleSettings
    provider := { package := "p" }
    order := ⟨[{ ns := "a", name := "U" }, { ns := "a", name := "O" }, { ns := "a", name := "S" }], []⟩
    service := { id := { ns := "a", name := "S" }, kind := .service { operations := [{ ns := "a", name := "O" }] } } }
  plugins := httpAuth.plugins
  protocol := none

/-- **Not every package is closed**: nothing is declared for the unit type, which a member targets. -/
theorem unitRun_not_closed : unitUnion.NamesMembers ∧ Run.of [] unitUnion sampleSettings = .ok unitRun ∧
    (∃ client, (unitRun.plan {}).result = .ok client) ∧ ¬ unitRun.Closed := by
  have hm : unitUnion.NamesMembers := by
    unfold Model.NamesMembers
    decide
  have hrun : Run.of [] unitUnion sampleSettings = .ok unitRun := by cbv
  have hplan : ∃ client, (unitRun.plan {}).result = .ok client := by
    have hok : (unitRun.plan {}).result.toOption.isSome = true := by decide +kernel
    cases h : (unitRun.plan {}).result with
    | error e =>
      rw [h] at hok
      cases hok
    | ok client => exact ⟨client, rfl⟩
  refine ⟨hm, hrun, hplan, fun hclosed => ?_⟩
  obtain ⟨client, hplan⟩ := hplan
  have htargets := (closed_iff_targetsDeclared hm hrun hplan).1 hclosed
  have hshape : unitRun.cx.model.get? unitHolder.id = some unitHolder := by cbv
  have hemits : unitRun.cx.Emits unitHolder := ⟨by decide, hshape, rfl⟩
  have hdeclared := (htargets.values unitHolder hemits _ List.mem_cons_self).1
  have hunit : unitRun.cx.model.get? Prelude.unit = some Prelude.unitShape := by cbv
  have hcx : unitRun.cx.Standard := (Run.of_builtin hm hrun).standard
  rcases hdeclared.of_shape hcx rfl hunit with ⟨e, he, -⟩ | ⟨type, hk⟩ | ⟨he, -⟩ | ⟨hclient, -⟩
  · cases he
  · cases hk
  · exact absurd he.1 (by decide)
  · cases hclient

end Package

end ClientGen
