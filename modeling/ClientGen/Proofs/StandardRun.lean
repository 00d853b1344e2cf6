import ClientGen.Proofs.DeclaredNames
import ClientGen.Proofs.EmissionOrder

/-!
# Runs with the integrations that come with the generator

Those integrations leave the model, the symbols and the sections of files as they are. They bring two protocols and
three auth schemes.

* `Run.of_builtin`: every run without others is one.
-/

namespace ClientGen.Package

variable {settings : Settings} {is : List Integration} {m : Model}

/-- What an integration that comes with the generator adds. -/
structure Additive (i : Integration) : Prop where
  preprocess : i.preprocess = .ok
  decorate : i.decorate = id
  interceptors : i.interceptors = []
  customizations : i.customizations = []
  protocols : ∀ p ∈ i.protocols, ∃ q ∈ [restJson, rpcCbor], p = q.protocol
  schemes : ∀ p ∈ i.plugins, ∀ s, p.scheme = some s → s ∈ builtinSchemes
  properties : ∀ p ∈ i.plugins, ∀ c ∈ p.properties, ∃ name, c.type = .builtin name

theorem available_additive {i : Integration} (h : i ∈ available) : Additive i := by
  simp only [available, List.mem_cons, List.not_mem_nil, or_false] at h
  rcases h with rfl | rfl | rfl | rfl <;>
    exact ⟨rfl, rfl, rfl, rfl, by simp [httpAuth, restJsonIntegration, rpcCborIntegration, sigv4Integration],
      by simp [httpAuth, restJsonIntegration, rpcCborIntegration, sigv4Integration, builtinSchemes],
      by simp [httpAuth, restJsonIntegration, rpcCborIntegration, sigv4Integration]⟩

theorem integrationsFor_additive (h : integrationsFor settings = .ok is) :
    ∀ i ∈ Integration.sort (is ++ []), Additive i := by
  intro i hi
  obtain ⟨found, hfound, h⟩ := bind_ok_iff.1 h
  cases h
  have hmem : i ∈ found := by
    have hperm := List.mergeSort_perm (Integration.sort found ++ []) fun a b => b.priority ≤ a.priority
    have hi' := hperm.mem_iff.1 hi
    rw [List.append_nil] at hi'
    exact (List.mergeSort_perm found fun a b => b.priority ≤ a.priority).mem_iff.1 hi'
  obtain ⟨name, -, hname⟩ := exists_of_mem_mapM hfound hmem
  unfold findIntegration at hname
  split at hname
  · rename_i hfind
    cases hname
    exact available_additive (List.mem_of_find?_eq_some hfind)
  · cases hname

/-- Integrations that add only leave the model as it is, -/
theorem preprocess_eq (h : ∀ i ∈ is, Additive i) (m : Model) : is.foldlM (fun m i => i.preprocess m) m = .ok m := by
  induction is with
  | nil => rfl
  | cons i is ih =>
    rw [List.foldlM_cons, (h i (by simp)).preprocess]
    exact ih fun j hj => h j (List.mem_cons_of_mem _ hj)

theorem decorate_eq (h : ∀ i ∈ is, Additive i) (p : Provider) : is.foldl (fun p i => i.decorate p) p = p := by
  induction is with
  | nil => rfl
  | cons i is ih =>
    rw [List.foldl_cons, (h i (by simp)).decorate]
    exact ih fun j hj => h j (List.mem_cons_of_mem _ hj)

theorem dot_not_mem_identifier {cs : List Char} (h : Text.isIdentifier cs = true) : '.' ∉ cs := by
  intro hmem
  cases cs with
  | nil => cases h
  | cons c rest =>
    simp only [Text.isIdentifier, Bool.and_eq_true, List.all_eq_true] at h
    rcases List.mem_cons.1 hmem with rfl | hmem
    · exact absurd h.1 (by decide)
    · exact absurd (h.2 _ hmem) (by decide)

theorem namesMembers_keep (h : m.NamesMembers) (p : Shape → Bool) : (m.keep p).NamesMembers :=
  fun shape hs => h shape (List.mem_of_mem_filter hs)

theorem order_placed {root : ShapeId} {o : EmissionOrder} (h : EmissionOrder.of m root = .ok o) {id : ShapeId}
    (hid : id ∈ o.all) : ∃ shape ∈ m.shapes, shape.id = id ∧ m.get? id = some shape := by
  obtain ⟨nodes, hwalk, hvalid⟩ := EmissionOrder.valid_of_ok h
  obtain ⟨hdeclared, shape, hs, hshape⟩ := (Model.walk_ok hwalk).declared id ((hvalid.mem_all id).1 hid)
  refine ⟨shape, ?_, hshape, hs⟩
  -- the id is declared, so it is not resolved to the prelude
  have hroot : id.root = id := (Model.get?_id hs).1.symm.trans hshape
  unfold Model.get? at hs
  rw [hroot] at hs
  split at hs
  · rename_i hfind
    cases hs
    exact Model.mem_of_declared? hfind
  · rename_i hnone
    rw [Model.declares_eq] at hdeclared
    rw [Model.declared?_eq] at hnone
    obtain ⟨s, hmem, hid⟩ := List.any_eq_true.1 hdeclared
    exact absurd hid (List.find?_eq_none.1 hnone s hmem)

/-- **What a run works with** that has only the integrations that come with the generator. -/
structure Run.Builtin (run : Run) (settings : Settings) : Prop where
  settings : run.cx.settings = settings
  standard : run.cx.Standard
  interceptors : run.integrations.flatMap Integration.interceptors = []
  customizations : run.integrations.flatMap Integration.customizations = []
  protocol : ∃ p : Option HttpProtocol, run.protocol = p.map HttpProtocol.protocol ∧
    ∀ q, p = some q → q ∈ [restJson, rpcCbor]
  schemes : ∀ s ∈ registeredSchemes run.plugins, s ∈ builtinSchemes
  properties : ∀ c ∈ run.plugins.flatMap Plugin.properties, ∃ name, c.type = .builtin name

theorem mem_registeredSchemes {plugins : List Plugin} {s : AuthScheme} (h : s ∈ registeredSchemes plugins) :
    ∃ p ∈ plugins, p.scheme = some s := by
  rcases mem_foldl_unless (fun (acc : List AuthScheme) s => acc.any fun t => t.id == s.id) h with h | h
  · simp at h
  · exact List.mem_filterMap.1 h

theorem clientProtocol_mem {integrations : List Integration} {service : Shape} {protocol : Option Protocol}
    (h : clientProtocol integrations m settings service = .ok protocol) {p : Protocol} (hp : protocol = some p) :
    p ∈ integrations.flatMap Integration.protocols := by
  subst hp
  unfold clientProtocol at h
  split at h
  · unfold Protocol.select at h
    dsimp only at h
    split at h
    · split at h
      · cases h
      · split at h
        · rename_i hfind
          cases h
          exact List.mem_of_find?_eq_some hfind
        · cases h
    · obtain ⟨id, -, hfind⟩ := List.exists_of_findSome?_eq_some (Except.ok.inj h)
      exact List.mem_of_find?_eq_some hfind
  · cases h

theorem service_ok {id : ShapeId} {shape : Shape} {service : Service} (h : m.service id = .ok (shape, service)) :
    m.get? id = some shape ∧ shape.kind = .service service := by
  obtain ⟨shape', hs, h⟩ := bind_ok_iff.1 h
  cases hk : shape'.kind <;> rw [hk] at h <;> cases h
  exact ⟨Model.expect_eq_ok.1 hs, hk⟩

/-- The parts of a context. -/
structure Prepared (is : List Integration) (m : Model) (settings : Settings) (cx : Context) : Prop where
  model : m.prune settings.service = .ok cx.model
  order : EmissionOrder.of cx.model settings.service = .ok cx.order
  provider : cx.provider = is.foldl (fun p i => i.decorate p) { package := settings.module }
  service : ∃ s, cx.model.service settings.service = .ok (cx.service, s)
  settings : cx.settings = settings

theorem prepare_ok {cx : Context} (h : prepare is m settings = .ok cx) : Prepared is m settings cx := by
  obtain ⟨_, -, h⟩ := bind_ok_iff.1 h
  obtain ⟨model, hmodel, h⟩ := bind_ok_iff.1 h
  obtain ⟨order, horder, h⟩ := bind_ok_iff.1 h
  obtain ⟨⟨service, s⟩, hservice, h⟩ := bind_ok_iff.1 h
  cases h
  exact ⟨hmodel, horder, rfl, ⟨s, hservice⟩, rfl⟩

theorem prepare_standard (his : ∀ i ∈ is, Additive i) (hm : m.NamesMembers)
    (hmodule : Text.isIdentifier settings.module.toList = true) {cx : Context} (h : prepare is m settings = .ok cx) :
    cx.settings = settings ∧ cx.Standard := by
  obtain ⟨hmodel, horder, hprovider, ⟨s, hservice⟩, rfl⟩ := prepare_ok h
  refine ⟨rfl, ?_⟩
  obtain ⟨kept, -, hmodel⟩ := bind_ok_iff.1 hmodel
  obtain ⟨hget, hkind⟩ := service_ok hservice
  exact {
    provider := hprovider.trans (decorate_eq his _)
    package := dot_not_mem_identifier hmodule
    placed := fun id hid => order_placed horder hid
    members := by
      rw [← Except.ok.inj hmodel]
      exact namesMembers_keep hm _
    service := (Model.get?_id hget).2
    serviceKind := ⟨s, hkind⟩ }

/-- The parts of a run without other integrations. -/
structure Run.Made (run : Run) (m : Model) (settings : Settings) : Prop where
  additive : ∀ i ∈ run.integrations, Additive i
  identifier : Text.isIdentifier settings.module.toList = true
  context : prepare run.integrations m settings = .ok run.cx
  plugins : run.plugins = Integration.servicePlugins run.integrations run.cx.service
  protocol : clientProtocol run.integrations run.cx.model settings run.cx.service = .ok run.protocol

theorem Run.of_ok {run : Run} (h : Run.of [] m settings = .ok run) : run.Made m settings := by
  unfold Run.of at h
  split at h
  · cases h
  · rename_i hmodule
    obtain ⟨_, -, h⟩ := bind_ok_iff.1 h
    obtain ⟨found, hfound, h⟩ := bind_ok_iff.1 h
    have his := integrationsFor_additive hfound
    obtain ⟨m', hm', h⟩ := bind_ok_iff.1 h
    rw [preprocess_eq his] at hm'
    cases hm'
    obtain ⟨cx, hcx, h⟩ := bind_ok_iff.1 h
    obtain ⟨protocol, hprotocol, h⟩ := bind_ok_iff.1 h
    cases h
    exact ⟨his, by simpa using hmodule, hcx, rfl, hprotocol⟩

namespace Run.Made

variable {run : Run} {m : Model} {settings : Settings} (h : run.Made m settings)

include h

theorem http : ∃ p : Option HttpProtocol, run.protocol = p.map HttpProtocol.protocol ∧
    ∀ q, p = some q → q ∈ [restJson, rpcCbor] := by
  cases hp : run.protocol with
  | none => exact ⟨none, rfl, by simp⟩
  | some p =>
    obtain ⟨i, hi, hmem⟩ := List.mem_flatMap.1 (clientProtocol_mem h.protocol hp)
    obtain ⟨q, hq, rfl⟩ := (h.additive i hi).protocols p hmem
    exact ⟨some q, rfl, by rintro _ ⟨⟩; exact hq⟩

theorem interceptors : run.integrations.flatMap Integration.interceptors = [] :=
  List.flatMap_eq_nil_iff.2 fun i hi => (h.additive i hi).interceptors

theorem customizations : run.integrations.flatMap Integration.customizations = [] :=
  List.flatMap_eq_nil_iff.2 fun i hi => (h.additive i hi).customizations

theorem plugin_mem {p : Plugin} (hp : p ∈ run.plugins) : ∃ i ∈ run.integrations, p ∈ i.plugins := by
  rw [h.plugins] at hp
  exact List.mem_flatMap.1 (List.mem_of_mem_filter hp)

theorem schemes {s : AuthScheme} (hs : s ∈ registeredSchemes run.plugins) : s ∈ builtinSchemes := by
  obtain ⟨p, hp, hscheme⟩ := mem_registeredSchemes hs
  obtain ⟨i, hi, hp⟩ := h.plugin_mem hp
  exact (h.additive i hi).schemes p hp s hscheme

theorem properties : ∀ c ∈ run.plugins.flatMap Plugin.properties, ∃ name, c.type = .builtin name := by
  intro c hc
  obtain ⟨p, hp, hc⟩ := List.mem_flatMap.1 hc
  obtain ⟨i, hi, hp⟩ := h.plugin_mem hp
  exact (h.additive i hi).properties p hp c hc

end Run.Made

/-- **A run without other integrations works with those that come with the generator.** -/
theorem Run.of_builtin (hm : m.NamesMembers) {run : Run} (h : Run.of [] m settings = .ok run) :
    run.Builtin settings := by
  have hmade := Run.of_ok h
  obtain ⟨hsettings, hstandard⟩ := prepare_standard hmade.additive hm hmade.identifier hmade.context
  exact ⟨hsettings, hstandard, hmade.interceptors, hmade.customizations, hmade.http, fun s hs => hmade.schemes hs,
    hmade.properties⟩

end ClientGen.Package
