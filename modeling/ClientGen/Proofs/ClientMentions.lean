import ClientGen.Proofs.TypeMentions

/-!
# What the modules of a client mention and define

The client, config and auth modules, and the two modules of a protocol. Besides what every package
defines, they mention the types that operations take, return and raise, and the names that auth schemes
are chosen with.

* `clientEdits_yields`: the condition and the names of all five modules together.
-/

namespace ClientGen

/-- The target of an operation's input or output, unless it is the unit type. -/
def Operation.valueTarget : Option ShapeId → Option ShapeId
  | some id => if id == Prelude.unit then none else some id
  | none => none

/-- The targets of an operation's input and output, unless they are the unit type. -/
def Operation.valueTargets (op : Operation) : List ShapeId :=
  (valueTarget op.input).toList ++ (valueTarget op.output).toList

/-- The auth schemes that come with the generator. -/
def Package.builtinSchemes : List AuthScheme := [apiKeyScheme, bearerScheme, sigv4Scheme]

/-- The module of the client class. -/
@[reducible] noncomputable def Context.clientHome (cx : Context) : String := (cx.sym cx.service.id).ns

namespace Library

/-- The names that config modules take from elsewhere, the classes of auth schemes apart. -/
def config : List Symbol :=
  [dataclass, field, any, callable, aiohttpClient, httpClient, simpleRetryStrategy, retryStrategy, clientProtocol,
    interceptor, httpAuthScheme]

/-- The names that client modules take from elsewhere, those that choose auth schemes apart. -/
def client : List Symbol :=
  [callable, awaitable, deepcopy, replace, urlparse, httpRequest, httpResponse, retryError]

/-- The names that the functions which write requests take from elsewhere. -/
def serialize : List Symbol := [quote, uri, httpRequest, httpFields, httpField]

/-- The names that the functions which read responses take from elsewhere. -/
def deserialize : List Symbol := [any, document, httpResponse]

@[simp] theorem mem_config {s : Symbol} : s ∈ config ↔ s = dataclass ∨ s = field ∨ s = any ∨ s = callable ∨
    s = aiohttpClient ∨ s = httpClient ∨ s = simpleRetryStrategy ∨ s = retryStrategy ∨ s = clientProtocol ∨
    s = interceptor ∨ s = httpAuthScheme := by
  simp [config]

@[simp] theorem mem_client {s : Symbol} : s ∈ client ↔ s = callable ∨ s = awaitable ∨ s = deepcopy ∨ s = replace ∨
    s = urlparse ∨ s = httpRequest ∨ s = httpResponse ∨ s = retryError := by
  simp [client]

@[simp] theorem mem_serialize {s : Symbol} :
    s ∈ serialize ↔ s = quote ∨ s = uri ∨ s = httpRequest ∨ s = httpFields ∨ s = httpField := by
  simp [serialize]

@[simp] theorem mem_deserialize {s : Symbol} : s ∈ deserialize ↔ s = any ∨ s = document ∨ s = httpResponse := by
  simp [deserialize]

end Library

namespace Reading

open Package

/-- The names that auth schemes are chosen with are good. -/
def AuthGood (r : Reading) : Prop := r.Good Library.authParams ∧ r.Good Library.authOption

/-- What a config module takes from elsewhere is good. -/
structure ConfigGrounded (r : Reading) : Prop where
  library : ∀ s ∈ Library.config, r.Good s
  builtin : ∀ name, r.Good (.builtin name)
  config : r.Good (config r.cx.package)
  authResolver : r.Good (authResolver r.cx.package)

/-- What a client module takes from elsewhere is good, and what every package defines. -/
structure ClientGrounded (r : Reading) : Prop where
  library : ∀ s ∈ Library.client, r.Good s
  config : r.Good (config r.cx.package)
  plugin : r.Good (plugin r.cx.package)
  serviceError : r.Good (serviceError r.cx.package)
  apiError : r.Good (apiError r.cx.package)

/-- The same for the functions that write requests. -/
structure WritersGrounded (r : Reading) : Prop where
  library : ∀ s ∈ Library.serialize, r.Good s
  config : r.Good (config r.cx.package)

/-- The same for the functions that read responses. -/
structure ReadersGrounded (r : Reading) : Prop where
  library : ∀ s ∈ Library.deserialize, r.Good s
  config : r.Good (config r.cx.package)
  apiError : r.Good (apiError r.cx.package)
  unknownApiError : r.Good (unknownApiError r.cx.package)

/-- The functions of a protocol are defined for every operation. -/
def TransferGood (r : Reading) (operations : List (Shape × Operation)) : Prop :=
  ∀ o ∈ operations, r.Good (serializer r.cx.package o.1.id) ∧ r.Good (deserializer r.cx.package o.1.id)

/-- What the modules of a client take from elsewhere is good, and what the package defines for all of them. -/
structure ModulesGrounded (r : Reading) (protocol : Option HttpProtocol) (operations : List (Shape × Operation)) :
    Prop where
  auth : (r.inside (authResolver r.cx.package).ns).Good Library.callable
  config : (r.inside (Package.config r.cx.package).ns).ConfigGrounded
  schemes : ∀ s ∈ builtinSchemes, ∀ symbol, s.symbol = some symbol →
    (r.inside (Package.config r.cx.package).ns).Good symbol
  client : (r.inside r.cx.clientHome).ClientGrounded
  transfer : protocol.isSome = true → (r.inside r.cx.clientHome).TransferGood operations
  writers : (r.inside (Naming.declared r.cx.package "" serializeModule).ns).WritersGrounded
  readers : (r.inside (Naming.declared r.cx.package "" deserializeModule).ns).ReadersGrounded
  codec : ∀ p, protocol = some p → (r.inside (Naming.declared r.cx.package "" serializeModule).ns).Good p.codec ∧
    (r.inside (Naming.declared r.cx.package "" deserializeModule).ns).Good p.codec

/-- The names that auth schemes are chosen with are good wherever they are mentioned. -/
def ChoiceGood (r : Reading) (protocol : Bool) : Prop :=
  (r.inside (authResolver r.cx.package).ns).AuthGood ∧
    (protocol = true → (r.inside r.cx.clientHome).Good Library.authParams)

/-- What the mentions of the operations' values need. -/
def OperationsGood (r : Reading) (protocol : Bool) (operations : List (Shape × Operation)) : Prop :=
  ∀ o ∈ operations, (∀ target ∈ o.2.valueTargets, (r.inside r.cx.clientHome).Good (r.cx.sym target)) ∧
    (protocol = true →
      (∀ target ∈ (Operation.valueTarget o.2.input).toList,
        (r.inside (Naming.declared r.cx.package "" serializeModule).ns).Good (r.cx.sym target)) ∧
      ∀ target ∈ (Operation.valueTarget o.2.output).toList ++ operationErrors r.cx.service o.2,
        (r.inside (Naming.declared r.cx.package "" deserializeModule).ns).Good (r.cx.sym target))

end Reading

namespace Package

open Reading

variable {r : Reading}

theorem forall_value {α β : Type} {o : Option α} {f : α → β} {P : β → Prop} :
    (∀ s, o.map f = some s → P s) ↔ ∀ a ∈ o.toList, P (f a) := by
  cases o <;> simp

theorem mem_foldl_unless {α : Type} (found : List α → α → Bool) {base more : List α} {a : α}
    (h : a ∈ more.foldl (fun acc x => if found acc x then acc else acc ++ [x]) base) : a ∈ base ∨ a ∈ more := by
  induction more generalizing base with
  | nil => exact .inl h
  | cons x more ih =>
    rw [List.foldl_cons] at h
    rcases ih h with h | h
    · split at h
      · exact .inl h
      · rcases List.mem_append.1 h with h | h
        · exact .inl h
        · exact .inr (List.mem_cons.2 (.inl (List.mem_singleton.1 h)))
    · exact .inr (List.mem_cons_of_mem _ h)

theorem operationValue_yields {ω δ : Type} [Located ω] {v : View ω δ} (id : Option ShapeId) :
    r.Yields v (r.cx.operationValue id) True [] (Operation.valueTarget id).toList
      fun s => s = (Operation.valueTarget id).map r.cx.sym := by
  cases id with
  | none => exact Yields.congr (yields_pure none rfl) (by simp) rfl (by simp [Operation.valueTarget])
  | some id =>
    unfold Context.operationValue Operation.valueTarget
    dsimp only
    split
    · exact Yields.congr (yields_pure none rfl) (by simp) rfl (by simp)
    · exact Yields.congr (Yields.lookup fun _ => yields_pure _ rfl) (by simp) rfl (by simp)

theorem value_yields {ω δ β : Type} [Located ω] {v : View ω δ} {id : Option ShapeId} {f : Option Symbol → Plan ω β} {N : Prop}
    {L : List δ} {K : List ShapeId} {Q : β → Prop}
    (h : r.Yields v (f ((Operation.valueTarget id).map r.cx.sym)) N L K Q) :
    r.Yields v (r.cx.operationValue id >>= f) N L ((Operation.valueTarget id).toList ++ K) Q := by
  have hf : ∀ s, s = (Operation.valueTarget id).map r.cx.sym → r.Yields v (f s) N L K Q := by
    rintro s rfl
    exact h
  exact ((operationValue_yields id).bind hf).congr (by simp) rfl (List.Subset.refl _)

/-! ### The auth module -/

theorem optionFactory_writes (name : String) (scheme : ShapeId) {first : Plan Step Unit}
    (signerProperties : String) (hfirst : r.Writes first True [] []) :
    r.Writes (optionFactory name scheme first signerProperties) r.AuthGood [name] [] := by
  refine Writes.congr (Writes.define <| hfirst.seq fun _ => (Writes.block <| writes_line.seq fun _ =>
    writes_line.seq fun _ => writes_line).seq fun _ => writes_line) ?_ rfl (by simp)
  simp [AuthGood]

theorem factory_writes {scheme : AuthScheme} (h : scheme ∈ builtinSchemes) :
    r.Writes (scheme.factory r.cx) r.AuthGood [scheme.factoryName] [] := by
  simp only [builtinSchemes, List.mem_cons, List.not_mem_nil, or_false] at h
  rcases h with rfl | rfl | rfl
  · exact Writes.except fun _ _ => optionFactory_writes _ _ _ (writes_pure ())
  · exact optionFactory_writes _ _ _ (writes_pure ())
  · refine Writes.except fun _ _ => optionFactory_writes _ _ _ ?_
    exact (writes_line.seq fun _ => writes_line.block).congr (by simp) rfl (by simp)

theorem candidateChoice_writes (service : String) (overrides : List (String × String)) :
    r.Writes (candidateChoice service overrides) True [] [] := by
  have hloop : r.Writes (overrides.forM fun o =>
      Plan.block "case $S:" [o.1] (Plan.line "candidates = $L" [o.2])) True [] [] :=
    Yields.congr (yields_forM fun _ _ => writes_line.block) (by simp) (by simp) (by simp)
  refine Writes.ite (writes_line.quiet (by simp)) ?_
  exact Writes.congr (Writes.block <| hloop.seq fun _ => writes_line.block) (by simp) rfl (by simp)

theorem resolverClass_writes (hr : r.Good Library.callable) (name service : String) (overrides : List (String × String)) :
    r.Writes (resolverClass r.cx name service overrides) r.AuthGood [name] [] := by
  refine Writes.congr (Writes.define <| (writes_docs _).seq fun _ => writes_newline.seq fun _ =>
    Writes.block <| writes_line.seq fun _ => (candidateChoice_writes _ _).seq fun _ =>
    writes_newline.seq fun _ => writes_line.seq fun _ => writes_line.block.block.seq fun _ =>
    writes_line) ?_ rfl (by simp)
  simp [AuthGood, hr]

/-- The names of the auth module. -/
def authNames (resolution : AuthResolution) (schemes : List AuthScheme) : List String :=
  (resolution.all.flatMap fun id => ((schemes.find? fun s => s.id == id).map AuthScheme.factoryName).toList) ++
    ["HTTPAuthSchemeResolver"]

theorem authSchemes_yields (hr : (r.inside (authResolver r.cx.package).ns).Good Library.callable)
    (resolution : AuthResolution) {schemes : List AuthScheme} (hschemes : ∀ s ∈ schemes, s ∈ builtinSchemes) :
    r.Yields .edits (authSchemes r.cx resolution schemes) (r.inside (authResolver r.cx.package).ns).AuthGood
      ((authNames resolution schemes).map fun name => ((authResolver r.cx.package).ns, name)) [] fun _ => True := by
  have hfactory : ∀ id, (r.inside (authResolver r.cx.package).ns).Writes (do
      let scheme ← findScheme schemes id
      scheme.factory r.cx
      Plan.separate) (r.inside (authResolver r.cx.package).ns).AuthGood ((schemes.find? fun s => s.id == id).map AuthScheme.factoryName).toList [] := by
    intro id
    refine Writes.except fun scheme hscheme => ?_
    unfold findScheme at hscheme
    split at hscheme
    · rename_i s hfind
      cases hscheme
      rw [hfind]
      exact ((factory_writes (hschemes _ (List.mem_of_find?_eq_some hfind))).seq fun _ => writes_separate).congr
        (by simp) (by simp) (by simp)
    · cases hscheme
  have hoverrides : (r.inside (authResolver r.cx.package).ns).Writes (resolution.overrides.mapM fun o => do
      let candidates ← factoryList schemes o.2
      return (o.1.name, candidates)) True [] [] :=
    Yields.congr (yields_mapM fun _ _ => Writes.except fun _ _ => writes_pure _) (by simp) rfl (by simp)
  refine Yields.congr (Writes.edit <| Writes.seq (yields_forM fun id _ => hfactory id) fun _ =>
    Writes.except fun _ _ => hoverrides.seq fun _ => Writes.scope (resolverClass_writes hr _ _ _)) ?_ ?_ ?_
  · exact ⟨fun h => h.2.2, fun h => ⟨fun _ _ => h, trivial, h⟩⟩
  · rfl
  · simp

/-! ### The config module -/

section Config

theorem propertyLine_writes (p : ConfigProperty) : r.Writes (propertyLine p) (r.Good p.type) [p.name] [] := by
  unfold propertyLine
  split <;> exact writes_defineLine.congr (by simp) rfl (by simp)

theorem propertyField_writes (p : ConfigProperty) : r.Writes (propertyField p) (r.Good p.type) [p.name] [] :=
  ((propertyLine_writes p).seq fun _ => (writes_docs _).seq fun _ => writes_newline).congr (by simp) rfl (by simp)

theorem baseProperties_yields (hr : r.ConfigGrounded) (here : String) {schemes : List (ShapeId × Symbol)}
    (hschemes : ∀ e ∈ schemes, r.Good e.2) :
    r.Yields .steps (baseProperties r.cx here schemes) True [] [] fun ps => ∀ p ∈ ps, r.Good p.type := by
  have hentries : r.Writes (schemes.mapM fun e => do
      let name ← Plan.reference here e.2
      return Text.quote e.1.text ++ ": " ++ name ++ "()") True [] [] :=
    Yields.congr (yields_mapM fun e _ => (writes_reference here e.2).seq fun _ => writes_pure _)
      (by simp only [and_true]; exact iff_true_intro hschemes) rfl (by simp)
  refine Yields.congr (Yields.bind (writes_reference here _) fun any _ =>
    Yields.bind (writes_reference here _) fun field _ => Yields.bind hentries fun entries _ =>
    Yields.bind (writes_reference here _) fun httpClient _ => Yields.bind (writes_reference here _) fun retry _ =>
    Yields.bind (writes_reference here _) fun resolver _ => Yields.bind (writes_reference here _) fun protocol _ =>
    Yields.bind (writes_reference here _) fun interceptor _ => Yields.bind (writes_reference here _) fun scheme _ =>
    yields_pure _ ?_) ?_ rfl (by simp)
  · simp [hr.library, hr.builtin, hr.authResolver]
  · simp [hr.library, hr.authResolver]

theorem mem_addProperties {base more : List ConfigProperty} {p : ConfigProperty}
    (h : p ∈ addProperties base more) : p ∈ base ∨ p ∈ more :=
  mem_foldl_unless (fun (acc : List ConfigProperty) p => acc.any fun q => q.name == p.name) h

theorem configClass_yields (hr : (r.inside (config r.cx.package).ns).ConfigGrounded) {plugins : List Plugin}
    {schemes : List (ShapeId × Symbol)}
    (hplugins : ∀ p ∈ plugins.flatMap Plugin.properties, (r.inside (config r.cx.package).ns).Good p.type)
    (hschemes : ∀ e ∈ schemes, (r.inside (config r.cx.package).ns).Good e.2) :
    r.Yields .edits (configClass r.cx plugins schemes) True
      (["Config", "Plugin"].map fun name => ((config r.cx.package).ns, name)) [] fun _ => True := by
  have hbody : ∀ base, (∀ p ∈ base, (r.inside (config r.cx.package).ns).Good p.type) →
      (r.inside (config r.cx.package).ns).Writes (do
      Plan.line "@$T(kw_only=True)" [Library.dataclass]
      Plan.define .classDef (config r.cx.package).name ":" [] do
        Plan.docs ("Configuration for the " ++ r.cx.service.id.name ++ " client.")
        Plan.newline
        Plan.scope .configProperties
          ((addProperties base (plugins.flatMap Plugin.properties)).forM propertyField)
      Plan.separate
      Plan.defineLine .typeAlias (plugin r.cx.package).name " = $T[[$L], None]"
        [Library.callable, .name (config r.cx.package)]
      Plan.docs "A callable that allows customizing the config object on each request.")
      True ["Config", "Plugin"] [] := by
    intro base hbase
    have hfields : (r.inside (config r.cx.package).ns).Writes ((addProperties base (plugins.flatMap Plugin.properties)).forM propertyField) True
        ((addProperties base (plugins.flatMap Plugin.properties)).flatMap fun p => [p.name]) [] := by
      refine Yields.congr (yields_forM fun p _ => propertyField_writes p) (iff_true_intro fun p hp => ?_) rfl (by simp)
      rcases mem_addProperties hp with h | h
      · exact hbase p h
      · exact hplugins p h
    refine Writes.congr (writes_line.seq fun _ => (Writes.define <| (writes_docs _).seq fun _ =>
      writes_newline.seq fun _ => hfields.scope).seq fun _ => writes_separate.seq fun _ =>
      writes_defineLine.seq fun _ => writes_docs _) ?_ rfl (by simp)
    simp [hr.library, hr.config]
  exact Yields.congr (Writes.edit <| (baseProperties_yields hr _ hschemes).bind fun base hbase => hbody base hbase)
    (by simp) rfl (by simp)

end Config

/-! ### The client module -/

section Client

variable (hr : r.ClientGrounded)

include hr

omit hr in
theorem transferFunctions_writes (here : String) (protocol : Option Protocol) {operation : ShapeId}
    (h : protocol.isSome → r.Good (serializer r.cx.package operation) ∧ r.Good (deserializer r.cx.package operation)) :
    r.Writes (transferFunctions r.cx here protocol operation) True [] [] := by
  cases protocol with
  | none => exact writes_pure _
  | some p =>
    exact Writes.congr ((writes_reference here _).seq fun _ => (writes_reference here _).seq fun _ => writes_pure _)
      (by simp [h rfl]) rfl (by simp)

omit hr in
theorem inputParameter_writes (here : String) (input : Option Symbol) :
    r.Writes (inputParameter here input) (∀ s, input = some s → r.Good s) [] [] := by
  cases input with
  | none => exact Writes.congr (writes_pure _) (by simp) rfl (by simp)
  | some s => exact Writes.congr ((writes_reference here s).seq fun _ => writes_pure _) (by simp) rfl (by simp)

theorem operationMethod_writes (here : String) (protocol : Option Protocol) {shape : Shape} (op : Operation)
    (h : protocol.isSome → r.Good (serializer r.cx.package shape.id) ∧ r.Good (deserializer r.cx.package shape.id)) :
    r.Writes (operationMethod r.cx here protocol shape op) (∀ target ∈ op.valueTargets, r.Good (r.cx.sym target)) []
      (shape.id :: op.valueTargets) := by
  refine Writes.congr (Writes.lookup fun _ => value_yields <| value_yields <|
    Writes.seq (writes_referenceOrNone here _) fun result => (inputParameter_writes here _).seq fun parameter =>
    (writes_reference here _).seq fun plugin => (transferFunctions_writes here protocol h).seq fun functions =>
    Writes.scope <| Writes.quiet (Writes.block <| (writes_leadingDocs _).seq fun _ => writes_line.seq fun _ =>
      writes_line.block.seq fun _ => (Writes.block <| writes_line.seq fun _ => writes_line.seq fun _ =>
        writes_line.seq fun _ => writes_line.seq fun _ => writes_line).seq fun _ => writes_line) ?_) ?_ ?_ ?_
  · simp [hr.library, apply_ite Arg.mentions]
  · simp only [Operation.valueTargets, List.forall_mem_append, forall_value, hr.plugin, and_true]
    exact and_comm
  · simp
  · simp [Operation.valueTargets]

theorem delegateOperation_writes : r.Writes (delegateOperation r.cx) True [] [] :=
  Writes.congr (writes_line.block.seq fun _ => writes_line) (by simp [hr.serviceError]) rfl (by simp)

theorem resolveEndpoint_writes : r.Writes (resolveEndpoint r.cx) True [] [] := by
  refine Writes.congr (writes_line.block.seq fun _ => writes_line.seq fun _ => (Writes.block <|
    writes_line.seq fun _ => writes_line.seq fun _ => writes_line.seq fun _ => writes_line.seq fun _ =>
    writes_line).seq fun _ => writes_line) ?_ rfl (by simp)
  simp [hr.serviceError, hr.library]

omit hr in
theorem signRequest_writes : r.Writes signRequest (r.Good Library.authParams) [] [] := by
  refine Writes.congr (writes_line.seq fun _ => writes_line.seq fun _ => writes_line.seq fun _ => Writes.block <|
    writes_line.block.seq fun _ => writes_line.seq fun _ => writes_line.seq fun _ => writes_line.seq fun _ =>
    writes_line) ?_ rfl (by simp)
  simp

theorem sendWithRetries_writes : r.Writes (sendWithRetries r.cx) True [] [] := by
  refine Writes.congr (writes_line.seq fun _ => Writes.block <|
    (Writes.block <| writes_line.seq fun _ => writes_line).seq fun _ => Writes.block <|
      writes_line.block.seq fun _ => (Writes.block <| writes_line.seq fun _ => writes_line.seq fun _ =>
        writes_line).seq fun _ => writes_line.block.seq fun _ => (writes_emit _).seq fun _ => writes_line)
    ?_ rfl (by simp)
  simp [hr.apiError, hr.library]

theorem carryOutOperation_writes : r.Writes (carryOutOperation r.cx) (r.Good Library.authParams) [] [] := by
  refine Writes.congr (writes_line.block.seq fun _ => writes_line.seq fun _ => writes_newline.seq fun _ =>
    (resolveEndpoint_writes hr).seq fun _ => writes_newline.seq fun _ => signRequest_writes.seq fun _ =>
    writes_newline.seq fun _ => sendWithRetries_writes hr) ?_ rfl (by simp)
  simp [hr.serviceError]

theorem executeMethod_writes (here : String) (protocol : Option Protocol) :
    r.Writes (executeMethod r.cx here protocol) (protocol.isSome = true → r.Good Library.authParams) [] [] := by
  have hbody : r.Writes (if protocol.isNone = true then delegateOperation r.cx else carryOutOperation r.cx)
      (protocol.isSome = true → r.Good Library.authParams) [] [] := by
    cases protocol with
    | none => exact (delegateOperation_writes hr).congr (by simp) rfl (by simp)
    | some p => exact (carryOutOperation_writes hr).congr (by simp) rfl (by simp)
  refine Writes.congr ((writes_reference here _).seq fun callable => (writes_reference here _).seq fun awaitable =>
    (writes_reference here _).seq fun config => (writes_reference here _).seq fun request =>
    (writes_reference here _).seq fun response =>
    Writes.seq (Writes.quiet (Writes.block <| writes_line.seq fun _ => writes_line.seq fun _ =>
      writes_line.seq fun _ => writes_line.seq fun _ => writes_line.seq fun _ => writes_line) ?_) fun _ =>
    hbody.block) ?_ rfl (by simp)
  · simp
  · simp [hr.library, hr.config]

omit hr in
theorem clientClass_yields (hr : (r.inside r.cx.clientHome).ClientGrounded) (protocol : Option Protocol)
    {operations : List (Shape × Operation)} (hops : r.cx.operations = .ok operations)
    (h : protocol.isSome = true → (r.inside r.cx.clientHome).TransferGood operations) :
    r.Yields .edits (clientClass r.cx protocol)
      ((∀ o ∈ operations, ∀ target ∈ o.2.valueTargets, (r.inside r.cx.clientHome).Good (r.cx.sym target)) ∧
        (protocol.isSome = true → (r.inside r.cx.clientHome).Good Library.authParams))
      [((r.cx.sym r.cx.service.id).ns, (r.cx.sym r.cx.service.id).name)]
      (r.cx.service.id :: operations.flatMap fun o => o.1.id :: o.2.valueTargets) fun _ => True := by
  have hmethods : ∀ here, (r.inside r.cx.clientHome).Writes (operations.forM fun o => do
      Plan.newline
      operationMethod r.cx here protocol o.1 o.2)
      (∀ o ∈ operations, ∀ target ∈ o.2.valueTargets, (r.inside r.cx.clientHome).Good (r.cx.sym target)) []
      (operations.flatMap fun o => o.1.id :: o.2.valueTargets) := by
    intro here
    exact Yields.congr (yields_forM fun o ho => Writes.seq writes_newline fun _ =>
      operationMethod_writes hr here protocol o.2 fun hp => h hp o ho) (by simp) (by simp) (by simp)
  refine Yields.congr (Yields.lookup fun _ => Yields.known hops <| Yields.bind (Writes.edit <| Writes.scope <| Writes.define <|
    (writes_leadingDocs _).seq fun _ => (Writes.block <| writes_line.seq fun _ => writes_line.block).seq fun _ =>
    (hmethods _).seq fun _ => writes_newline.seq fun _ => executeMethod_writes hr _ _) fun _ _ =>
    yields_pure _ trivial) ?_ rfl (by simp)
  simp [hr.config, hr.plugin]

end Client

/-! ### The modules of a protocol -/

section Http

variable {p : HttpProtocol} (hp : r.Good p.codec) (here : String)

theorem requestPath_writes (hr : r.WritersGrounded) (operation : ShapeId) (input : Option ShapeId) (path : String) :
    r.Writes (requestPath r.cx operation input path) True [] [] := by
  have hlabels : r.Writes ((pathLabels path.toList).forM fun label => do
      let m ← labelMember r.cx operation input label
      Plan.inline ".replace($S, $T(str(input.$L), safe=\"\"))"
        [labelToken path.toList label, Library.quote, r.cx.memberName m]) True [] [] :=
    Yields.congr (yields_forM fun label _ => Writes.except fun _ _ => writes_inline.quiet (by simp [hr.library]))
      (by simp) (by simp) (by simp)
  exact Writes.congr (writes_inline.seq fun _ => hlabels.seq fun _ => writes_newline) (by simp) rfl (by simp)

include hp

theorem requestBody_writes (hasInput : Bool) : r.Writes (requestBody p hasInput) True [] [] :=
  Writes.ite (writes_line.quiet (by simp [hp])) (writes_line.quiet (by simp))

omit hp in
theorem headerEntry_writes (hr : r.WritersGrounded) : r.Writes (headerEntry p) True [] [] := by
  unfold headerEntry
  split
  · exact writes_inline.quiet (by simp [hr.library])
  · exact writes_pure ()

theorem requestWriter_writes (hr : r.WritersGrounded) (shape : Shape) (op : Operation) :
    r.Writes (requestWriter p r.cx here shape op)
      (∀ target ∈ (Operation.valueTarget op.input).toList, r.Good (r.cx.sym target))
      [(serializer r.cx.package shape.id).name] [] := by
  refine Writes.congr (value_yields <| Writes.except fun request _ =>
    Writes.seq (writes_referenceOrNone here _) fun inputType => Writes.defineGood (Writes.quiet
      ((requestPath_writes hr _ _ _).seq fun _ => (requestBody_writes hp _).seq fun _ =>
        (Writes.block <| writes_line.seq fun _ => writes_line.seq fun _ => writes_inline.seq fun _ =>
          (headerEntry_writes hr).seq fun _ => writes_line.seq fun _ => writes_line).seq fun _ => writes_line) ?_) ?_)
    ?_ rfl (by simp)
  · simp [hr.library]
  · simp [hr.library, hr.config]
  · simp only [forall_value, and_true]

theorem responseValue_writes (output : Option Symbol) :
    r.Writes (responseValue p output) (∀ s, output = some s → r.Good s) [] [] := by
  cases output with
  | none => exact writes_line.congr (by simp) rfl (by simp)
  | some s => exact writes_line.congr (by simp [hp]) rfl (by simp)

omit hp in
theorem errorEntry_writes (id : ShapeId) :
    r.Writes (errorEntry r.cx here id) (r.Good (r.cx.sym id)) [] [id] :=
  Writes.congr (Writes.lookup fun _ => (writes_reference here _).seq fun _ => writes_pure _) (by simp) rfl (by simp)

theorem responseReader_writes (hr : r.ReadersGrounded) (shape : Shape) (op : Operation) :
    r.Writes (responseReader p r.cx here shape op)
      (∀ target ∈ (Operation.valueTarget op.output).toList ++ operationErrors r.cx.service op,
        r.Good (r.cx.sym target))
      [(deserializer r.cx.package shape.id).name] (operationErrors r.cx.service op) := by
  refine Writes.congr (value_yields <| Writes.seq (writes_referenceOrNone here _) fun outputType =>
    Writes.seq (yields_mapM fun id _ => errorEntry_writes here id) fun errors => Writes.defineGood
      (writes_line.seq fun _ => Writes.seq (Writes.quiet writes_line.block ?_) fun _ => responseValue_writes hp _) ?_) ?_ rfl ?_
  · simp
  · simp [hr.library, hr.config]
  · simp only [forall_value, List.forall_mem_append]
    constructor
    · rintro ⟨houtput, herrors, -⟩
      exact ⟨houtput, herrors⟩
    · rintro ⟨houtput, herrors⟩
      exact ⟨houtput, herrors, by simp, trivial, houtput⟩
  · simp

omit hp in
theorem errorCode_writes : r.Writes (errorCode p) True [] [] := by
  unfold errorCode
  split
  · exact writes_line.block.congr (by simp) rfl (by simp)
  · exact writes_pure ()

theorem errorReader_writes (hr : r.ReadersGrounded) : r.Writes (errorReader p r.cx) True ["_deserialize_error"] [] := by
  refine Writes.congr (Writes.define <| writes_line.seq fun _ => errorCode_writes.seq fun _ =>
    writes_line.block.seq fun _ => writes_line.seq fun _ => writes_line.block.seq fun _ => writes_line) ?_ rfl (by simp)
  simp [hr.library, hr.apiError, hr.unknownApiError, hp]

variable {operations : List (Shape × Operation)} (hops : r.cx.operations = .ok operations)

include hops

theorem requestWriters_writes (hr : r.WritersGrounded) :
    r.Writes (requestWriters p r.cx here)
      (∀ o ∈ operations, ∀ target ∈ (Operation.valueTarget o.2.input).toList, r.Good (r.cx.sym target))
      (operations.map fun o => (serializer r.cx.package o.1.id).name) [] := by
  refine Yields.congr (Yields.known hops <| yields_forM fun o _ => Writes.seq (requestWriter_writes hp here hr o.1 o.2) fun _ =>
    writes_separate) (by simp) ?_ (by simp)
  rw [List.map_eq_flatMap]
  rfl

theorem responseReaders_writes (hr : r.ReadersGrounded) :
    r.Writes (responseReaders p r.cx here)
      (∀ o ∈ operations, ∀ target ∈ (Operation.valueTarget o.2.output).toList ++ operationErrors r.cx.service o.2,
        r.Good (r.cx.sym target))
      ((operations.map fun o => (deserializer r.cx.package o.1.id).name) ++ ["_deserialize_error"])
      (operations.flatMap fun o => operationErrors r.cx.service o.2) := by
  refine Yields.congr (Yields.known hops <| Writes.seq (yields_forM fun o _ => Writes.seq (responseReader_writes hp here hr o.1 o.2) fun _ =>
    writes_separate) fun _ => errorReader_writes hp hr) (by simp) ?_ (by simp)
  rw [List.map_eq_flatMap]
  rfl

end Http

theorem protocolModule_yields (p : Protocol) (submodule : String) {write : Context → String → Plan Step Unit}
    {N : Prop} {names : List String} {K : List ShapeId}
    (h : (r.inside (Naming.declared r.cx.package "" submodule).ns).Writes
      (write r.cx (Naming.declared r.cx.package "" submodule).ns) N names K) :
    r.Yields .edits (protocolModule r.cx p submodule write) N
      (names.map fun name => ((Naming.declared r.cx.package "" submodule).ns, name)) K fun _ => True := by
  have hdeps : (r.inside (Naming.declared r.cx.package "" submodule).ns).Writes (p.dependencies.forM fun d => Plan.emit (.dependency d)) True [] [] :=
    Yields.congr (yields_forM fun d _ => writes_emit _) (by simp) (by simp [Step.definitions]) (by simp)
  exact Yields.congr (Writes.edit <| hdeps.seq fun _ => h) (by simp) rfl (by simp)

/-- The names of the two modules of a protocol. -/
def protocolNames (package : String) (protocol : Option HttpProtocol) (operations : List (Shape × Operation)) :
    List (String × String) :=
  match protocol with
  | none => []
  | some _ =>
    (operations.map fun o => (package ++ "." ++ serializeModule, (serializer package o.1.id).name)) ++
      ((operations.map fun o => (package ++ "." ++ deserializeModule, (deserializer package o.1.id).name)) ++
        [(package ++ "." ++ deserializeModule, "_deserialize_error")])

theorem protocolModules_yields {protocol : Option HttpProtocol} {operations : List (Shape × Operation)}
    (hr : r.ModulesGrounded protocol operations) (hops : r.cx.operations = .ok operations) :
    r.Yields .edits (protocolModules r.cx (protocol.map HttpProtocol.protocol))
      (protocol.isSome = true → ∀ o ∈ operations,
        (∀ target ∈ (Operation.valueTarget o.2.input).toList,
          (r.inside (Naming.declared r.cx.package "" serializeModule).ns).Good (r.cx.sym target)) ∧
        ∀ target ∈ (Operation.valueTarget o.2.output).toList ++ operationErrors r.cx.service o.2,
          (r.inside (Naming.declared r.cx.package "" deserializeModule).ns).Good (r.cx.sym target))
      (protocolNames r.cx.package protocol operations)
      (if protocol.isSome then operations.flatMap fun o => operationErrors r.cx.service o.2 else [])
      fun _ => True := by
  cases protocol with
  | none => exact Yields.congr (yields_pure () trivial) (by simp) rfl (by simp)
  | some p =>
    obtain ⟨hwrite, hread⟩ := hr.codec p rfl
    refine Yields.congr (Yields.bind (protocolModule_yields p.protocol serializeModule
      (requestWriters_writes hwrite _ hops hr.writers)) fun _ _ => protocolModule_yields p.protocol deserializeModule
      (responseReaders_writes hread _ hops hr.readers)) ?_ ?_ (by simp)
    · simp only [Option.isSome_some, forall_const]
      exact ⟨fun h o ho => ⟨h.1 o ho, h.2 o ho⟩, fun h => ⟨fun o ho => (h o ho).1, fun o ho => (h o ho).2⟩⟩
    · simp [protocolNames, Naming.declared, Function.comp_def]

/-! ### The whole client -/

/-- The names that the modules of a client define. -/
noncomputable def clientNames (cx : Context) (protocol : Option HttpProtocol) (operations : List (Shape × Operation))
    (resolution : AuthResolution) (schemes : List AuthScheme) : List (String × String) :=
  protocolNames cx.package protocol operations ++
    (((authNames resolution schemes).map fun name => ((authResolver cx.package).ns, name)) ++
      ((["Config", "Plugin"].map fun name => ((config cx.package).ns, name)) ++
        [((cx.sym cx.service.id).ns, (cx.sym cx.service.id).name)]))

/-- The ids whose symbols a client looks up. -/
def clientIds (cx : Context) (errors : Bool) (operations : List (Shape × Operation)) : List ShapeId :=
  cx.service.id :: operations.flatMap fun o =>
    o.1.id :: o.2.valueTargets ++ if errors then operationErrors cx.service o.2 else []

theorem clientEdits_yields {protocol : Option HttpProtocol} {plugins : List Plugin}
    {operations : List (Shape × Operation)} {resolution : AuthResolution}
    (hr : r.ModulesGrounded protocol operations) (hops : r.cx.operations = .ok operations)
    (hres : AuthResolution.of r.cx.model r.cx.service (operations.map (·.1))
      ((registeredSchemes plugins).map AuthScheme.id) = .ok resolution)
    (hschemes : ∀ s ∈ registeredSchemes plugins, s ∈ builtinSchemes)
    (hproperties : ∀ p ∈ plugins.flatMap Plugin.properties, (r.inside (config r.cx.package).ns).Good p.type) :
    r.Yields .edits (clientEdits r.cx (protocol.map HttpProtocol.protocol) plugins)
      (r.ChoiceGood protocol.isSome ∧ r.OperationsGood protocol.isSome operations)
      (clientNames r.cx protocol operations resolution (registeredSchemes plugins))
      (clientIds r.cx protocol.isSome operations) fun _ => True := by
  have hclass : ∀ e ∈ (resolution.all.filterMap fun id => do
      let scheme ← (registeredSchemes plugins).find? fun s => s.id == id
      let symbol ← scheme.symbol
      return (id, symbol)), (r.inside (config r.cx.package).ns).Good e.2 := by
    intro e he
    obtain ⟨id, -, he⟩ := List.mem_filterMap.1 he
    obtain ⟨scheme, hfind, he⟩ := Option.bind_eq_some_iff.1 he
    obtain ⟨symbol, hsymbol, he⟩ := Option.bind_eq_some_iff.1 he
    cases he
    exact hr.schemes scheme (hschemes _ (List.mem_of_find?_eq_some hfind)) symbol hsymbol
  have hclient := clientClass_yields hr.client (protocol.map HttpProtocol.protocol) hops
    (by simpa using hr.transfer)
  rw [Option.isSome_map] at hclient
  refine Yields.congr ((protocolModules_yields hr hops).bind fun _ _ => Yields.known hops <|
    Yields.known hres <| (authSchemes_yields hr.auth resolution hschemes).bind fun _ _ =>
    (configClass_yields hr.config hproperties hclass).bind fun _ _ => hclient) ?_ rfl ?_
  · constructor
    · rintro ⟨hprotocol, hauth, -, hvalues, hparams⟩
      exact ⟨⟨hauth, hparams⟩, fun o ho => ⟨hvalues o ho, fun hp => hprotocol hp o ho⟩⟩
    · rintro ⟨⟨hauth, hparams⟩, hvalues⟩
      exact ⟨fun hp o ho => (hvalues o ho).2 hp, hauth, trivial, fun o ho => (hvalues o ho).1, hparams⟩
  · intro id hid
    simp only [clientIds, List.cons_append, List.mem_cons, List.mem_flatMap, List.mem_append] at hid
    simp only [List.nil_append, List.mem_append, List.mem_cons, List.mem_flatMap]
    rcases hid with rfl | ⟨o, ho, rfl | hid | hid⟩
    · exact .inr (.inl rfl)
    · exact .inr (.inr ⟨o, ho, .inl rfl⟩)
    · exact .inr (.inr ⟨o, ho, .inr hid⟩)
    · left
      cases hp : protocol.isSome <;> rw [hp] at hid
      · simp at hid
      · exact List.mem_flatMap.2 ⟨o, ho, hid⟩

/-! ### The whole package -/

section Package

variable (hplaced : r.cx.Placed) (hown : ∀ shape, r.cx.Emits shape → r.OwnGood shape)

include hplaced hown

/-- **A package of types.** -/
theorem packageEdits_types (hr : r.TypesGrounded) (hartifact : r.cx.settings.artifact = .types)
    (protocol : Option Protocol) (plugins : List Plugin) :
    r.Yields .edits (packageEdits r.cx protocol plugins) (∀ shape, r.cx.Emits shape → r.ShapeGood shape)
      (typeNames r.cx) (typeIds r.cx) fun _ => True := by
  unfold packageEdits
  rw [hartifact]
  exact Yields.congr ((typeEdits_yields hplaced hown hr).bind fun _ _ => yields_pure none trivial) (by simp) (by simp)
    (by simp [typeIds])

/-- **A package with a client.** -/
theorem packageEdits_client (hr : r.TypesGrounded) (hartifact : r.cx.settings.artifact = .client) {protocol : Option Protocol}
    {plugins : List Plugin} {N : Prop} {names : List (String × String)} {K : List ShapeId}
    (h : r.Yields .edits (clientEdits r.cx protocol plugins) N names K fun _ => True) :
    r.Yields .edits (packageEdits r.cx protocol plugins) ((∀ shape, r.cx.Emits shape → r.ShapeGood shape) ∧ N)
      (typeNames r.cx ++ names) (typeIds r.cx ++ K) fun _ => True := by
  unfold packageEdits
  rw [hartifact]
  exact Yields.congr ((typeEdits_yields hplaced hown hr).bind fun _ _ => h.bind fun _ _ =>
    yields_pure _ trivial) (by simp) (by simp) (by simp [typeIds])

end Package

end Package

end ClientGen
