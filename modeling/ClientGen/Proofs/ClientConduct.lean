import ClientGen.Proofs.TypeConduct

/-!
# How the plans of a client's modules conduct themselves

* `packageEdits_conducts`: with these, all edits of a run are innocent and of the files of their modules.
-/

namespace ClientGen.Package

open Plan Survey

variable {v : Survey}

/-! ### The auth module -/

instance (name : String) (scheme : ShapeId) (first : Plan Step Unit) (properties : String) [v.Honest first] :
    v.Honest (optionFactory name scheme first properties) := by
  unfold optionFactory
  infer_instance

theorem factory_honest {scheme : AuthScheme} (h : scheme ∈ builtinSchemes) : v.Honest (scheme.factory v.cx) := by
  simp only [builtinSchemes, List.mem_cons, List.not_mem_nil, or_false] at h
  rcases h with rfl | rfl | rfl
  · exact Honest.bind fun _ => inferInstance
  · unfold bearerScheme
    infer_instance
  · exact Honest.bind fun _ => inferInstance

instance (service : String) (overrides : List (String × String)) : v.Honest (candidateChoice service overrides) := by
  have hloop : v.Honest (overrides.forM fun (name, candidates) =>
      block "case $S:" [name] (line "candidates = $L" [candidates])) := .forM fun _ _ => inferInstance
  unfold candidateChoice
  infer_instance

instance (name service : String) (overrides : List (String × String)) :
    v.Honest (resolverClass v.cx name service overrides) := by
  unfold resolverClass
  infer_instance

theorem findScheme_mem {schemes : List AuthScheme} {id : ShapeId} {scheme : AuthScheme}
    (h : findScheme schemes id = .ok scheme) : scheme ∈ schemes := by
  unfold findScheme at h
  split at h
  · rename_i hfind
    cases h
    exact List.mem_of_find?_eq_some hfind
  · cases h

theorem authSchemes_conducts (resolution : AuthResolution) {schemes : List AuthScheme}
    (h : ∀ s ∈ schemes, s ∈ builtinSchemes) : v.Conducts (authSchemes v.cx resolution schemes) v.Sends fun _ => True := by
  have hfactories : v.Honest (resolution.all.forM fun id => do
      let scheme ← findScheme schemes id
      scheme.factory v.cx
      separate) := by
    refine .forM fun id _ => Honest.after (conducts_except _) fun scheme hscheme => ?_
    have := factory_honest (v := v) (h scheme (findScheme_mem hscheme))
    infer_instance
  have hoverrides : v.Honest (resolution.overrides.mapM fun o => (do
      let candidates ← factoryList schemes o.2
      return (o.1.name, candidates) : Plan Step (String × String))) :=
    .mapM fun _ _ => inferInstance
  exact conducts_edit (Symbol.housed_declared _ (by simp [submodules]))

/-! ### The config module -/

instance (p : ConfigProperty) : v.Honest (propertyLine p) := by
  unfold propertyLine
  split <;> infer_instance

instance (p : ConfigProperty) : v.Honest (propertyField p) := by
  unfold propertyField
  infer_instance

instance (here : String) (schemes : List (ShapeId × Symbol)) : v.Honest (baseProperties v.cx here schemes) := by
  have hentries : v.Honest (schemes.mapM fun (id, s) => (do
      let name ← reference here s
      return Text.quote id.text ++ ": " ++ name ++ "()" : Plan Step String)) := .mapM fun _ _ => inferInstance
  unfold baseProperties
  infer_instance

theorem configClass_conducts (plugins : List Plugin) (schemes : List (ShapeId × Symbol)) :
    v.Conducts (configClass v.cx plugins schemes) v.Sends fun _ => True :=
  conducts_edit (Symbol.housed_declared _ (by simp [submodules]))

/-! ### The client module -/

theorem operationValue_honest {id : Option ShapeId} (h : ∀ target ∈ (Operation.valueTarget id).toList, v.Asks target) :
    v.Honest (v.cx.operationValue id) := by
  unfold Context.operationValue
  split
  · rename_i id
    split
    · infer_instance
    · rename_i hunit
      have := h id (by simp [Operation.valueTarget, hunit])
      infer_instance
  · infer_instance

instance (here : String) (protocol : Option Protocol) (operation : ShapeId) :
    v.Honest (transferFunctions v.cx here protocol operation) := by
  unfold transferFunctions
  split <;> infer_instance

instance (here : String) (input : Option Symbol) : v.Honest (inputParameter here input) := by
  unfold inputParameter
  split <;> infer_instance

/-- What an operation asks for may be asked for. -/
structure CoversOperation (v : Survey) (o : Shape × Operation) : Prop where
  self : v.Asks o.1.id
  values : ∀ target ∈ o.2.valueTargets, v.Asks target
  errors : ∀ target ∈ operationErrors v.cx.service o.2, v.Asks target

theorem CoversOperation.input {o : Shape × Operation} (h : CoversOperation v o) : v.Honest (v.cx.operationValue o.2.input) :=
  operationValue_honest fun target ht => h.values target (List.mem_append_left _ ht)

theorem CoversOperation.output {o : Shape × Operation} (h : CoversOperation v o) : v.Honest (v.cx.operationValue o.2.output) :=
  operationValue_honest fun target ht => h.values target (List.mem_append_right _ ht)

theorem operationMethod_honest (here : String) (protocol : Option Protocol) {o : Shape × Operation}
    (h : CoversOperation v o) : v.Honest (operationMethod v.cx here protocol o.1 o.2) := by
  have hself := h.self
  have hinput := h.input
  have houtput := h.output
  refine Honest.bind fun method => Honest.bind fun input => Honest.bind fun output => Honest.bind fun result =>
    Honest.bind fun parameter => Honest.bind fun plugin => Honest.bind fun functions => ?_
  infer_instance

instance : v.Honest (delegateOperation v.cx) := by
  unfold delegateOperation
  infer_instance

instance : v.Honest (resolveEndpoint v.cx) := by
  unfold resolveEndpoint
  infer_instance

instance : v.Honest signRequest := by
  unfold signRequest
  infer_instance

instance : v.Honest (sendWithRetries v.cx) := by
  unfold sendWithRetries
  infer_instance

instance : v.Honest (carryOutOperation v.cx) := by
  unfold carryOutOperation
  infer_instance

instance (here : String) (protocol : Option Protocol) : v.Honest (executeMethod v.cx here protocol) := by
  unfold executeMethod
  infer_instance

/-- What a client asks for besides its types may be asked for. -/
structure CoversClient (v : Survey) : Prop where
  service : v.Asks v.cx.service.id
  operations : ∀ operations, v.cx.operations = .ok operations → ∀ o ∈ operations, CoversOperation v o

theorem clientClass_conducts (hp : v.cx.provider = { package := v.cx.package }) (h : CoversClient v)
    (protocol : Option Protocol) : v.Conducts (clientClass v.cx protocol) v.Sends fun _ => True := by
  have hservice := h.service
  refine (conducts_housed hp).bind fun client hclient => (conducts_except _).bind fun operations hoperations => ?_
  have hmethods : v.Honest (operations.forM fun o => do
      newline
      operationMethod v.cx client.ns protocol o.1 o.2) := by
    refine .forM fun o ho => ?_
    have := operationMethod_honest client.ns protocol (h.operations operations hoperations o ho)
    infer_instance
  exact (conducts_edit hclient.self).bind fun _ _ => conducts_pure client trivial

/-! ### The modules of a protocol -/

section Protocols

variable (p : HttpProtocol) (here : String)

instance (operation : ShapeId) (input : Option ShapeId) (path : String) : v.Honest (requestPath v.cx operation input path) := by
  unfold requestPath
  infer_instance

instance (hasInput : Bool) : v.Honest (requestBody p hasInput) := by
  unfold requestBody
  infer_instance

instance : v.Honest (headerEntry p) := by
  unfold headerEntry
  split <;> infer_instance

theorem requestWriter_honest {o : Shape × Operation} (h : CoversOperation v o) :
    v.Honest (requestWriter p v.cx here o.1 o.2) := by
  have hinput := h.input
  refine Honest.bind fun input => Honest.bind fun request => Honest.bind fun inputType => ?_
  infer_instance

instance (output : Option Symbol) : v.Honest (responseValue p output) := by
  unfold responseValue
  split <;> infer_instance

instance (id : ShapeId) [v.Asks id] : v.Honest (errorEntry v.cx here id) := by
  unfold errorEntry
  infer_instance

theorem responseReader_honest {o : Shape × Operation} (h : CoversOperation v o) :
    v.Honest (responseReader p v.cx here o.1 o.2) := by
  have houtput := h.output
  have herrors : v.Honest ((operationErrors v.cx.service o.2).mapM (errorEntry v.cx here)) := by
    refine .mapM fun id hid => ?_
    have := h.errors id hid
    infer_instance
  refine Honest.bind fun output => Honest.bind fun outputType => Honest.bind fun errors => ?_
  infer_instance

instance : v.Honest (errorCode p) := by
  unfold errorCode
  split <;> infer_instance

instance : v.Honest (errorReader p v.cx) := by
  unfold errorReader
  infer_instance

theorem requestWriters_honest (h : CoversClient v) : v.Honest (requestWriters p v.cx here) := by
  refine Honest.after (conducts_except _) fun operations hoperations => .forM fun o ho => ?_
  have := requestWriter_honest p here (h.operations operations hoperations o ho)
  infer_instance

theorem responseReaders_honest (h : CoversClient v) : v.Honest (responseReaders p v.cx here) := by
  refine Honest.after (conducts_except _) fun operations hoperations => ?_
  have hreaders : v.Honest (operations.forM fun o => do
      responseReader p v.cx here o.1 o.2
      separate) := by
    refine .forM fun o ho => ?_
    have := responseReader_honest p here (h.operations operations hoperations o ho)
    infer_instance
  infer_instance

end Protocols

theorem protocolModule_conducts (p : Protocol) {submodule : String} (hsub : submodule ∈ submodules)
    {write : Context → String → Plan Step Unit} (h : ∀ here, v.Honest (write v.cx here)) :
    v.Conducts (protocolModule v.cx p submodule write) v.Sends fun _ => True :=
  conducts_edit (Symbol.housed_declared _ hsub)

theorem protocolModules_conducts (h : CoversClient v) (protocol : Option HttpProtocol) :
    v.Conducts (protocolModules v.cx (protocol.map HttpProtocol.protocol)) v.Sends fun _ => True := by
  cases protocol with
  | none => exact conducts_pure () trivial
  | some p =>
    refine (protocolModule_conducts _ (by simp [submodules]) fun here => requestWriters_honest p here h).bind fun _ _ => ?_
    exact protocolModule_conducts _ (by simp [submodules]) fun here => responseReaders_honest p here h

/-! ### The whole package -/

theorem clientEdits_conducts (hp : v.cx.provider = { package := v.cx.package }) (h : CoversClient v)
    (protocol : Option HttpProtocol) {plugins : List Plugin}
    (hschemes : ∀ s ∈ registeredSchemes plugins, s ∈ builtinSchemes) :
    v.Conducts (clientEdits v.cx (protocol.map HttpProtocol.protocol) plugins) v.Sends fun _ => True := by
  refine (protocolModules_conducts h protocol).bind fun _ _ => (conducts_except _).bind fun operations _ =>
    (conducts_except _).bind fun resolution _ => (authSchemes_conducts resolution hschemes).bind fun _ _ =>
    (configClass_conducts plugins _).bind fun _ _ => ?_
  exact clientClass_conducts hp h _

/-- **All edits of a run** with the protocols and auth schemes that come with the generator. -/
theorem packageEdits_conducts (hp : v.cx.provider = { package := v.cx.package }) (htypes : CoversTypes v)
    (hclient : v.cx.settings.artifact = .client → CoversClient v) (protocol : Option HttpProtocol) {plugins : List Plugin}
    (hschemes : ∀ s ∈ registeredSchemes plugins, s ∈ builtinSchemes) :
    v.Conducts (packageEdits v.cx (protocol.map HttpProtocol.protocol) plugins) v.Sends fun _ => True := by
  refine (typeEdits_conducts hp htypes).bind fun _ _ => ?_
  split
  · exact conducts_pure none trivial
  · rename_i hartifact
    exact (clientEdits_conducts hp (hclient hartifact) protocol hschemes).bind fun client _ => conducts_pure _ trivial

end ClientGen.Package
