import ClientGen.Proofs.DistinctDefinitions
import ClientGen.Proofs.NamingExclusivity
import Mathlib

/-!
# When a protocol defines each of its functions once

A protocol has a module with a function for every operation that writes its request, and one with those that read the
responses and a function that all of them share. The functions are called after the operations, by no symbol that
is looked up. But the client looks up the method of every operation, which is called after it in the same style, so
different operations of a client have different functions.

* `typeNames_apart`: nothing that is defined for shapes is in the modules of a protocol.
* `definedNames_transfer`: the functions that a run defines there.
* `method_inj`: the methods of different operations have different names.
* `nodup_operations_iff`: an operation is taken twice if the service lists it under two ids.
* `transfer_nodup_iff`: the functions that write requests are different exactly if no operation is listed under two
  ids, and those that read responses if besides no operation is called like the shared one.
-/

namespace ClientGen

open Naming Package

/-! ### Symbols are not in the modules of a protocol -/

/-- The modules of a protocol. -/
def Package.transferModules : List String := [serializeModule, deserializeModule]

/-- The module is none of those of a protocol. -/
def Package.Apart (package ns : String) : Prop := ∀ sub ∈ transferModules, ns ≠ package ++ "." ++ sub

theorem Package.apart_of_not_mem {package sub : String} (h : sub ∉ transferModules) : Apart package (package ++ "." ++ sub) := by
  intro sub' hsub' hns
  exact h (module_inj hns ▸ hsub')

theorem Symbol.Settled.apart {package : String} (hp : '.' ∉ package.toList) {s : Symbol} (h : s.Settled package) :
    Apart package s.ns := by
  have hdisjoint : ∀ sub ∈ [modelsModule, schemasModule, clientModule], sub ∉ transferModules := by decide
  have hown : transferModules ⊆ submodules := by decide
  rcases h with ⟨sub, hsub, hns, -⟩ | ⟨hforeign, -⟩
  · rw [hns]
    exact apart_of_not_mem (hdisjoint sub hsub)
  · intro sub hsub hns
    apply not_mem_modules hp hforeign
    rw [hns]
    exact List.mem_map_of_mem (hown hsub)

namespace Context

variable {cx : Context} (hprovider : cx.provider = { package := cx.package }) (hp : '.' ∉ cx.package.toList)

include hprovider hp

omit hp in
theorem sym_settled (id : ShapeId) : (cx.sym id).AllSettled cx.package := by
  by_cases hex : ∃ s, cx.provider.Denotes cx.model id s
  · obtain ⟨s, hs⟩ := hex
    rw [Context.sym_eq hs]
    rw [hprovider] at hs
    exact Symbol.allSettled_of_denotes hs
  · unfold sym
    rw [dif_neg hex]
    exact Symbol.allSettled_of_no_properties (.inr ⟨rfl, rfl⟩) rfl

theorem sym_apart (id : ShapeId) : Apart cx.package (cx.sym id).ns := (sym_settled hprovider id).self.apart hp

theorem helper_apart (id : ShapeId) (role : String) : Apart cx.package (cx.helper id role).ns := by
  unfold helper
  cases h : (cx.sym id).property? role with
  | none => exact Symbol.Settled.apart hp (.inr ⟨rfl, rfl⟩)
  | some s => exact ((sym_settled hprovider id).helper role s h).apart hp

theorem modelNames_apart {shape : Shape} {name : String × String} (h : name ∈ modelNames cx shape) :
    Apart cx.package name.1 := by
  have hself := sym_apart hprovider hp shape.id
  have hfunctions : name ∈ (if cx.converted shape.id then functionNames cx shape.id else []) →
      Apart cx.package name.1 := by
    intro h
    split at h
    · obtain ⟨f, -, rfl⟩ := List.mem_map.1 h
      exact helper_apart hprovider hp shape.id _
    · cases h
  unfold modelNames at h
  split at h
  · rw [List.mem_singleton.1 h]
    exact hself
  · rw [List.mem_singleton.1 h]
    exact hself
  · obtain ⟨text, -, rfl⟩ := List.mem_map.1 h
    exact hself
  · exact hfunctions h
  · exact hfunctions h
  · exact hfunctions h
  · cases h

/-- **What is defined for shapes is not in the modules of a protocol.** -/
theorem typeNames_apart {name : String × String} (h : name ∈ typeNames cx) : Apart cx.package name.1 := by
  rcases List.mem_append.1 h with h | h
  · obtain ⟨text, -, rfl⟩ := List.mem_map.1 h
    exact (Symbol.settled_modelClass "ServiceError").apart hp
  · rcases List.mem_append.1 h with h | h
    · obtain ⟨id, -, rfl⟩ := List.mem_map.1 h
      exact helper_apart hprovider hp id _
    · obtain ⟨id, -, h⟩ := List.mem_flatMap.1 h
      unfold namesAt at h
      split at h
      · split at h
        · rcases List.mem_append.1 h with h | h
          · split at h
            · cases h
            · rw [List.mem_singleton.1 h]
              exact helper_apart hprovider hp _ _
          · exact modelNames_apart hprovider hp h
        · cases h
      · cases h

/-- **What a client defines in the modules of its protocol** are the functions of the protocol. -/
theorem clientNames_transfer (protocol : Option HttpProtocol) (operations : List (Shape × Operation))
    (resolution : AuthResolution) (schemes : List AuthScheme) {sub : String} (hsub : sub ∈ transferModules) :
    ((typeNames cx ++ clientNames cx protocol operations resolution schemes).filter fun name =>
      name.1 == cx.package ++ "." ++ sub) =
      (protocolNames cx.package protocol operations).filter fun name => name.1 == cx.package ++ "." ++ sub := by
  have hnone : ∀ {names : List (String × String)}, (∀ name ∈ names, Apart cx.package name.1) →
      (names.filter fun name => name.1 == cx.package ++ "." ++ sub) = [] := by
    intro names hapart
    refine List.filter_eq_nil_iff.2 fun name hn hns => ?_
    exact hapart name hn sub hsub (eq_of_beq hns)
  -- what is not of the protocol has modules of its own
  have hauth : ∀ name ∈ (authNames resolution schemes).map fun name => ((authResolver cx.package).ns, name),
      Apart cx.package name.1 := by
    intro name hn
    obtain ⟨text, -, rfl⟩ := List.mem_map.1 hn
    have hother : authModule ∉ transferModules := by decide
    exact apart_of_not_mem hother
  have hconfig : ∀ name ∈ ["Config", "Plugin"].map fun name => ((config cx.package).ns, name), Apart cx.package name.1 := by
    intro name hn
    obtain ⟨text, -, rfl⟩ := List.mem_map.1 hn
    have hother : configModule ∉ transferModules := by decide
    exact apart_of_not_mem hother
  have hclient : ∀ name ∈ [((cx.sym cx.service.id).ns, (cx.sym cx.service.id).name)], Apart cx.package name.1 := by
    intro name hn
    rw [List.mem_singleton.1 hn]
    exact sym_apart hprovider hp _
  rw [clientNames, List.filter_append, hnone fun name hn => typeNames_apart hprovider hp hn, List.nil_append,
    List.filter_append, List.filter_append, List.filter_append, hnone hauth, hnone hconfig, hnone hclient,
    List.append_nil, List.append_nil, List.append_nil]

end Context

/-! ### The operations of a service -/

/-- No operation is listed under two ids. Such ids differ in their members. -/
def Service.ListedOnce (s : Service) : Prop := ∀ a ∈ s.operations, ∀ b ∈ s.operations, a.root = b.root → a = b

namespace Model

theorem mem_dropRepeats {id : ShapeId} {ids : List ShapeId} : id ∈ dropRepeats ids ↔ id ∈ ids := by
  fun_induction dropRepeats ids with
  | case1 a rest ih => simp [ih]
  | case2 a b rest _ ih => simp [ih]
  | case3 => rfl

theorem dropRepeats_ascending {ids : List ShapeId} (h : ids.Pairwise fun a b => (compare a b).isLE = true) :
    (dropRepeats ids).Pairwise fun a b => compare a b = .lt := by
  fun_induction dropRepeats ids with
  | case1 a rest ih => exact ih h.of_cons
  | case2 a b rest hne ih =>
    -- `b` comes first of what is left, so it is enough that `a` is before `b`
    refine List.pairwise_cons.2 ⟨fun c hc => ?_, ih h.of_cons⟩
    have hab : compare a b = .lt := by
      have hle := List.rel_of_pairwise_cons h List.mem_cons_self
      cases hc : compare a b with
      | lt => rfl
      | eq => exact absurd (Std.LawfulEqOrd.eq_of_compare hc) hne
      | gt => rw [hc] at hle; cases hle
    rcases List.mem_cons.1 (mem_dropRepeats.1 hc) with rfl | hc
    · exact hab
    · exact Std.TransCmp.lt_of_lt_of_isLE hab (List.rel_of_pairwise_cons h.of_cons hc)
  | case3 ids hshort =>
    cases ids with
    | nil => exact .nil
    | cons a rest =>
      cases rest with
      | nil => exact List.pairwise_singleton _ _
      | cons b rest => exact (hshort a b rest rfl).elim

variable {m : Model} {id : ShapeId} {shape : Shape} {s : Service} {operations : List (Shape × Operation)}

theorem operation_ok {service : ShapeId} {o : Shape × Operation} (h : m.operation service id = .ok o) :
    m.get? id = some o.1 ∧ o.1.kind = .operation o.2 := by
  unfold operation at h
  cases hget : m.get? id with
  | none =>
    rw [hget] at h
    cases h
  | some shape =>
    rw [hget] at h
    dsimp only at h
    cases hkind : shape.kind <;> rw [hkind] at h <;> cases h
    exact ⟨rfl, hkind⟩

theorem mem_serviceOperations (h : m.serviceOperations id = .ok operations) {o : Shape × Operation} (ho : o ∈ operations) :
    o.1.id.member = none ∧ m.get? o.1.id = some o.1 ∧ o.1.kind = .operation o.2 := by
  obtain ⟨_, -, h⟩ := bind_ok_iff.1 h
  obtain ⟨listed, -, ho⟩ := exists_of_mem_mapM h ho
  obtain ⟨hget, hkind⟩ := operation_ok ho
  obtain ⟨hid, hself⟩ := get?_id hget
  exact ⟨by rw [hid]; rfl, hself, hkind⟩

section Listed

variable (hget : m.get? id = some shape) (hkind : shape.kind = .service s) (h : m.serviceOperations id = .ok operations)

include hget hkind h

theorem serviceOperations_ids :
    (operations.map fun o => o.1.id) = (dropRepeats (sortIds s.operations)).map ShapeId.root := by
  obtain ⟨⟨found, s'⟩, hfound, h⟩ := bind_ok_iff.1 h
  obtain ⟨hget', hkind'⟩ := service_ok hfound
  cases hget.symm.trans hget'
  cases hkind.symm.trans hkind'
  exact map_eq_of_mapM (fun _ _ ho => (get?_id (operation_ok ho).1).1) h

/-- **An operation is taken twice** exactly if it is listed under two ids. -/
theorem nodup_operations_iff : (operations.map fun o => o.1.id).Nodup ↔ s.ListedOnce := by
  have hlisted := nodup_of_ascending (dropRepeats_ascending (sortIds_sorted s.operations))
  rw [serviceOperations_ids hget hkind h, List.nodup_map_iff_inj_on hlisted]
  simp only [mem_dropRepeats, mem_sortIds, Service.ListedOnce]

theorem forall_operation_iff (P : String → Prop) :
    (∀ o ∈ operations, P o.1.id.name) ↔ ∀ listed ∈ s.operations, P listed.name := by
  calc (∀ o ∈ operations, P o.1.id.name)
      ↔ ∀ taken ∈ operations.map fun o => o.1.id, P taken.name := by rw [List.forall_mem_map]
    _ ↔ ∀ listed ∈ dropRepeats (sortIds s.operations), P listed.root.name := by
        rw [serviceOperations_ids hget hkind h, List.forall_mem_map]
    _ ↔ ∀ listed ∈ s.operations, P listed.name := by
        simp only [mem_dropRepeats, mem_sortIds, ShapeId.root]

end Listed

end Model

/-! ### Runs with a protocol -/

namespace Package

/-- The functions of operations, whose names begin with `start`. -/
def functionsOf (start : String) (operations : List (Shape × Operation)) : List String :=
  operations.map fun o => start ++ Text.snakeCase o.1.id.name

theorem protocolNames_writers (package : String) (p : HttpProtocol) (operations : List (Shape × Operation)) :
    ((protocolNames package (some p) operations).filter fun name => name.1 == package ++ "." ++ serializeModule).map
      Prod.snd = functionsOf "_serialize_" operations := by
  have hreaders : (package ++ "." ++ deserializeModule == package ++ "." ++ serializeModule) = false :=
    beq_eq_false_iff_ne.2 fun h => absurd (module_inj h) (by decide)
  simp [protocolNames, functionsOf, List.filter_map, Function.comp_def, hreaders, serializer, declared]

theorem protocolNames_readers (package : String) (p : HttpProtocol) (operations : List (Shape × Operation)) :
    ((protocolNames package (some p) operations).filter fun name => name.1 == package ++ "." ++ deserializeModule).map
      Prod.snd = functionsOf "_deserialize_" operations ++ ["_deserialize_error"] := by
  have hwriters : (package ++ "." ++ serializeModule == package ++ "." ++ deserializeModule) = false :=
    beq_eq_false_iff_ne.2 fun h => absurd (module_inj h) (by decide)
  simp [protocolNames, functionsOf, List.filter_map, Function.comp_def, hwriters, deserializer, declared]

namespace Run.Made

variable {run : Run} {m : Model} {settings : Settings} (h : run.Made m settings)

include h

theorem package : run.cx.package = settings.module := by
  rw [Context.package, (prepare_ok h.context).settings]

theorem provider : run.cx.provider = { package := run.cx.package } := by
  rw [(prepare_ok h.context).provider, decorate_eq h.additive, h.package]

theorem dotless : '.' ∉ run.cx.package.toList := by
  rw [h.package]
  exact dot_not_mem_identifier h.identifier

/-- Only clients have a protocol. -/
theorem client_of_protocol (hprotocol : run.protocol.isSome = true) : run.cx.settings.artifact = .client := by
  rw [(prepare_ok h.context).settings]
  have hchosen := h.protocol
  unfold clientProtocol at hchosen
  cases hartifact : settings.artifact with
  | client => rfl
  | types =>
    rw [hartifact] at hchosen
    rw [← Except.ok.inj hchosen] at hprotocol
    cases hprotocol

/-- **What a run defines in the modules of its protocol**, and what it has looked up by then. -/
theorem definedNames_transfer {client : Option Symbol} (hplan : (run.plan {}).result = .ok client)
    (hprotocol : run.protocol.isSome = true) : ∃ operations, run.cx.operations = .ok operations ∧
      (run.plan {}).names.Sound run.cx.provider run.cx.model ∧
      (∀ o ∈ operations, (run.plan {}).names.cached? o.1.id = some (run.cx.sym o.1.id)) ∧
      run.definitionsIn (moduleFile run.cx.package serializeModule) = functionsOf "_serialize_" operations ∧
      run.definitionsIn (moduleFile run.cx.package deserializeModule) =
        functionsOf "_deserialize_" operations ++ ["_deserialize_error"] := by
  have hartifact := h.client_of_protocol hprotocol
  obtain ⟨protocol, hchosen, -⟩ := h.http
  obtain ⟨operations, resolution, hops, hres⟩ := resolution_of_ok hplan hartifact
  obtain ⟨htypes, hids, hnames, -⟩ := plan_names_client (fun id hid => order_placed (prepare_ok h.context).order hid)
    (fun s hs => h.schemes hs) h.properties hplan hartifact hchosen hops hres
  have htransfer : ∀ sub ∈ transferModules, run.definitionsIn (moduleFile run.cx.package sub) =
      ((protocolNames run.cx.package protocol operations).filter fun name =>
        name.1 == run.cx.package ++ "." ++ sub).map Prod.snd := by
    have hown : transferModules ⊆ submodules := by decide
    intro sub hsub
    rw [definitionsIn_eq h sub (hown hsub), hnames, Context.clientNames_transfer h.provider h.dotless _ _ _ _ hsub]
  obtain ⟨p, rfl⟩ : ∃ p, protocol = some p := by
    rw [hchosen, Option.isSome_map] at hprotocol
    exact Option.isSome_iff_exists.1 hprotocol
  refine ⟨operations, hops, htypes.sound, fun o ho => hids _ ?_, ?_, ?_⟩
  · refine List.mem_cons_of_mem _ (List.mem_flatMap.2 ⟨o, ho, ?_⟩)
    exact List.mem_append_left _ List.mem_cons_self
  · rw [htransfer serializeModule (by decide), protocolNames_writers]
  · rw [htransfer deserializeModule (by decide), protocolNames_readers]

end Run.Made

/-- **Methods keep operations apart.** The names of the methods of two operations that have been looked up are
different, unless the operations are the same. -/
theorem method_inj {cx : Context} (hprovider : cx.provider = { package := cx.package }) {t : Table}
    (ht : t.Sound cx.provider cx.model) {operations : List (Shape × Operation)} (hops : cx.operations = .ok operations)
    (hknown : ∀ o ∈ operations, t.cached? o.1.id = some (cx.sym o.1.id)) {a b : Shape × Operation} (ha : a ∈ operations)
    (hb : b ∈ operations) (hname : Text.snakeCase a.1.id.name = Text.snakeCase b.1.id.name) : a.1.id = b.1.id := by
  have hmethod : ∀ o ∈ operations, cx.sym o.1.id = Naming.operationMethod cx.package o.1.id := by
    intro o ho
    obtain ⟨hid, hget, hkind⟩ := Model.mem_serviceOperations hops ho
    refine Context.sym_eq ?_
    rw [hprovider]
    refine Provider.Denotes.plain (p := { package := cx.package }) hid hget ?_ ?_
    all_goals
      rw [hkind]
      rfl
  have halone : ∀ o ∈ operations, Provider.standsFor? cx.model o.1.id = none := fun o ho =>
    Provider.standsFor?_of_no_member (Model.mem_serviceOperations hops ho).1
  -- otherwise two symbols that are remembered would declare one name
  by_contra hne
  have hdisjoint := ht.exclusive hne (hknown a ha) (hknown b hb) (halone a ha) (halone b hb)
  rw [hmethod a ha, hmethod b hb] at hdisjoint
  refine hdisjoint (Symbol.mem_declarations_self rfl) ?_
  have hsame : Naming.operationMethod cx.package a.1.id = Naming.operationMethod cx.package b.1.id := by
    unfold Naming.operationMethod
    rw [hname]
  rw [hsame]
  exact Symbol.mem_declarations_self rfl

/-- So the functions of the operations are different exactly if the operations are. -/
theorem functionsOf_nodup_iff {cx : Context} (hprovider : cx.provider = { package := cx.package }) {t : Table}
    (ht : t.Sound cx.provider cx.model) {operations : List (Shape × Operation)} (hops : cx.operations = .ok operations)
    (hknown : ∀ o ∈ operations, t.cached? o.1.id = some (cx.sym o.1.id)) (start : String) :
    (functionsOf start operations).Nodup ↔ (operations.map fun o => o.1.id).Nodup := by
  have hnames : functionsOf start operations =
      (operations.map fun o => o.1.id).map fun id => start ++ Text.snakeCase id.name := by
    rw [List.map_map]
    rfl
  rw [hnames]
  refine ⟨fun hn => hn.of_map _, fun hn => hn.map_on ?_⟩
  intro id hid id' hid' hsame
  obtain ⟨o, ho, rfl⟩ := List.mem_map.1 hid
  obtain ⟨o', ho', rfl⟩ := List.mem_map.1 hid'
  exact method_inj hprovider ht hops hknown ho ho' (String.append_right_inj start |>.1 hsame)

/-- The shared function is none of those of the operations if no operation is called like it. -/
theorem shared_not_mem_iff {operations : List (Shape × Operation)} :
    "_deserialize_error" ∉ functionsOf "_deserialize_" operations ↔
      ∀ o ∈ operations, Text.snakeCase o.1.id.name ≠ "error" := by
  have hshared : "_deserialize_error" = "_deserialize_" ++ "error" := by decide
  simp only [functionsOf, List.mem_map, hshared, String.append_right_inj, not_exists, not_and, ne_eq]

/-- **When a protocol defines each of its functions once.** Generation succeeds only if the plan of its run does. The
modules of the run's protocol then have a function for each operation, and the second one has a function more. Those
of the first are different exactly if no operation is listed under two ids, those of the second if moreover no
operation is called `error`. -/
theorem transfer_nodup_iff {m : Model} {settings : Settings} {run : Run} (hrun : Run.of [] m settings = .ok run) :
    (∀ files, generate [] m settings = .ok files → ∃ client, (run.plan {}).result = .ok client) ∧
      ∀ client, (run.plan {}).result = .ok client → run.protocol.isSome = true →
        ∃ s operations, run.cx.service.kind = .service s ∧ run.cx.operations = .ok operations ∧
          run.definitionsIn (moduleFile settings.module serializeModule) = functionsOf "_serialize_" operations ∧
          run.definitionsIn (moduleFile settings.module deserializeModule) =
            functionsOf "_deserialize_" operations ++ ["_deserialize_error"] ∧
          ((run.definitionsIn (moduleFile settings.module serializeModule)).Nodup ↔ s.ListedOnce) ∧
          ((run.definitionsIn (moduleFile settings.module deserializeModule)).Nodup ↔
            s.ListedOnce ∧ ∀ id ∈ s.operations, Text.snakeCase id.name ≠ "error") := by
  refine ⟨fun _ => plan_of_generate hrun, fun client hplan hprotocol => ?_⟩
  have hmade := Run.of_ok hrun
  obtain ⟨s, hservice⟩ := (prepare_ok hmade.context).service
  obtain ⟨hget, hkind⟩ := service_ok hservice
  obtain ⟨operations, hops, hsound, hknown, hwriters, hreaders⟩ := hmade.definedNames_transfer hplan hprotocol
  -- operations are looked for under the id of the service itself, not the one in the settings
  have hself := (Model.get?_id hget).2
  have hfunctions : ∀ start, (functionsOf start operations).Nodup ↔ s.ListedOnce := fun start =>
    (functionsOf_nodup_iff hmade.provider hsound hops hknown start).trans (Model.nodup_operations_iff hself hkind hops)
  rw [← hmade.package]
  refine ⟨s, operations, hkind, hops, hwriters, hreaders, ?_, ?_⟩
  · rw [hwriters]
    exact hfunctions _
  · rw [hreaders, ← List.concat_eq_append, List.nodup_concat, hfunctions, and_comm, shared_not_mem_iff,
      Model.forall_operation_iff hself hkind hops fun name => Text.snakeCase name ≠ "error"]

/-- An operation that is called `Error`. -/
def errorOperation : Shape where
  id := { ns := "a", name := "Error" }
  kind := .operation {}
  traits := { entries := [(TraitId.http, .obj [("method", .str "GET"), ("uri", .str "/")])] }

/-- A service that has it, with a protocol. -/
def errorService : Shape where
  id := { ns := "a", name := "S" }
  kind := .service { operations := [errorOperation.id] }
  traits := { entries := [(restJson.id, .obj [])] }

def errorServiceModel : Model where
  shapes := [errorService, errorOperation]
  distinct := by decide

def restSettings : Settings := { sampleSettings with artifact := .client, integrations := ["rest-json"] }

/-- The run of the service. -/
def errorServiceRun : Run where
  integrations := [httpAuth, restJsonIntegration]
  cx := {
    model := errorServiceModel
    settings := restSettings
    provider := { package := "p" }
    order := ⟨[errorOperation.id, errorService.id], []⟩
    service := errorService }
  plugins := httpAuth.plugins
  protocol := some restJson.protocol

/-- **Not every protocol defines each of its functions once**: the function that reads the responses of `Error` is
called like the one that all such functions share. -/
theorem errorService_not_nodup : Run.of [] errorServiceModel restSettings = .ok errorServiceRun ∧
    (∃ client, (errorServiceRun.plan {}).result = .ok client) ∧ errorServiceRun.protocol.isSome = true ∧
    errorServiceRun.definitionsIn "p/_private/deserialize.py" = ["_deserialize_error", "_deserialize_error"] ∧
    ¬ (errorServiceRun.definitionsIn "p/_private/deserialize.py").Nodup := by
  have hrun : Run.of [] errorServiceModel restSettings = .ok errorServiceRun := by cbv
  have hplan : ∃ client, (errorServiceRun.plan {}).result = .ok client :=
    exists_ok_of_isSome (by decide +kernel)
  have hfile : moduleFile restSettings.module deserializeModule = "p/_private/deserialize.py" := by decide +kernel
  have hfound : errorServiceRun.cx.operations = .ok [(errorOperation, {})] := by cbv
  have hname : Text.snakeCase errorOperation.id.name = "error" := by decide +kernel
  refine ⟨hrun, hplan, rfl, ?_⟩
  obtain ⟨client, hplan⟩ := hplan
  obtain ⟨s, operations, hkind, hops, -, hreaders, -, hnodup⟩ := (transfer_nodup_iff hrun).2 client hplan rfl
  cases hkind
  cases hfound.symm.trans hops
  rw [hfile] at hreaders hnodup
  refine ⟨?_, fun h => (hnodup.1 h).2 errorOperation.id List.mem_cons_self hname⟩
  rw [hreaders, functionsOf, List.map_singleton, hname]
  rfl

end Package

end ClientGen
