import ClientGen.Proofs.CollisionParties

/-!
# When a models module defines each name once

The names of a models module come from its start, and from the classes, variants and functions of shapes. Lookups
keep apart what different ids declare, and reserved words keep the classes of shapes apart from the start of the
module. But a variant is called after its union and its member together, and that name is not compared with the
reserved ones.

* `definitionsIn_nodup_iff`: the models module defines each name once exactly under this condition.
-/

namespace ClientGen

open Naming Package

/-- The members of a union have different names, and no variant is called like a base class of errors. -/
def Context.VariantsApart (cx : Context) : Prop :=
  ∀ shape members, cx.Emits shape → shape.kind = .union members →
    (members.map Member.name).Nodup ∧
      ∀ m ∈ members, className shape.id.name ++ Text.pascalCase m.name ∉ baseErrors

namespace Package

/-- The names in the models module that are defined for a shape, without their module. -/
noncomputable def modelTexts (cx : Context) (shape : Shape) : List String := (modelNames cx shape).map Prod.snd

/-- The names that a union with the given class name defines besides its variants. -/
def unionHelpers (name : String) : List String := [name ++ "Unknown", name, "_" ++ name ++ "Deserializer"]

theorem unionHelpers_nodup (name : String) : (unionHelpers name).Nodup := by
  refine List.Nodup.of_map String.length ?_
  simp only [unionHelpers, List.map_cons, List.map_nil, String.length_append, List.nodup_cons, List.mem_cons,
    List.not_mem_nil, or_false, not_or, not_false_eq_true, List.nodup_nil, and_true]
  have hunknown : "Unknown".length = 7 := rfl
  have hreader : "Deserializer".length = 12 := rfl
  omega

theorem unionHelpers_not_mem (name : String) (m : Model) : ∀ text ∈ unionHelpers (className name), text ∉ preambleNames m := by
  simp only [unionHelpers, List.forall_mem_cons]
  exact ⟨(unionHelper_not_mem _ m).1, className_not_mem name m, (unionHelper_not_mem _ m).2, by simp⟩

/-- Each is defined once, and none stands at the start of the module. -/
def Fresh (cx : Context) (shape : Shape) : Prop :=
  (modelTexts cx shape).Nodup ∧ ∀ text ∈ modelTexts cx shape, text ∉ preambleNames cx.model

end Package

namespace TypesKnown

variable {cx : Context} {t : Table} (hcx : cx.Standard) (h : TypesKnown cx t) {shape : Shape} (he : cx.Emits shape)

section Unions

variable {members : List Member} (hk : shape.kind = .union members)

include hcx he hk

theorem union_texts : modelTexts cx shape =
    members.map (fun m => className shape.id.name ++ Text.pascalCase m.name) ++
      unionHelpers (className shape.id.name) := by
  have hsym : cx.sym shape.id = unionType cx.package shape.id := hcx.sym_plain he.id_member he.2.1 hk rfl rfl
  have hunknown : (cx.helper shape.id Symbol.unknownRole).name = className shape.id.name ++ "Unknown" := by
    simp [Context.helper, hsym, unionType, modelClass, declared]
  have hreader : (cx.helper shape.id Symbol.deserializerRole).name = "_" ++ className shape.id.name ++ "Deserializer" := by
    simp [Context.helper, hsym, unionType, modelClass, declared, Symbol.unknownRole, Symbol.deserializerRole]
  have hvariants : (members.map fun m => (cx.sym m.id).name) =
      members.map fun m => className shape.id.name ++ Text.pascalCase m.name := by
    refine List.map_congr_left fun m hm => ?_
    rw [hcx.variant_sym he hk hm]
    rfl
  simp only [modelTexts, modelNames, hk, unionNames, List.map_map]
  rw [hvariants, hunknown, hreader, hsym, unionType_name]
  exact List.map_id _

include h

/-- The names of a union that are not those of its variants belong to the union itself. -/
theorem union_owns {text : String}
    (ht : text ∈ unionHelpers (className shape.id.name)) :
    cx.Owns t shape.id (cx.package ++ "." ++ modelsModule, text) := by
  have hsym : cx.sym shape.id = unionType cx.package shape.id := hcx.sym_plain he.id_member he.2.1 hk rfl rfl
  have hhelper : ∀ role name, (unionType cx.package shape.id).property? role = some (modelClass cx.package name) →
      (cx.package ++ "." ++ modelsModule, name) ∈ (unionType cx.package shape.id).declarations :=
    fun _ _ hp => Symbol.mem_declarations_property hp rfl
  apply h.owns_self he
  rw [hsym]
  simp only [unionHelpers, List.mem_cons, List.not_mem_nil, or_false] at ht
  rcases ht with rfl | rfl | rfl
  · exact hhelper Symbol.unknownRole _ (by simp [unionType])
  · rw [← unionType_name cx.package]
    exact Symbol.mem_declarations_self rfl
  · exact hhelper Symbol.deserializerRole _ (by simp [unionType, Symbol.unknownRole, Symbol.deserializerRole])

theorem variant_inj {m m' : Member} (hm : m ∈ members) (hm' : m' ∈ members)
    (hsame : className shape.id.name ++ Text.pascalCase m.name = className shape.id.name ++ Text.pascalCase m'.name) :
    m.name = m'.name := by
  have hown := h.variant_owns hcx he hk hm
  have hown' := h.variant_owns hcx he hk hm'
  rw [hcx.variant_sym he hk hm] at hown
  rw [hcx.variant_sym he hk hm'] at hown'
  change cx.Owns t m.id (_, className shape.id.name ++ Text.pascalCase m.name) at hown
  rw [hsame] at hown
  have hid := h.owner_unique hown hown'
  obtain ⟨hname, -⟩ := hcx.member_id he (by simpa [Shape.members, hk, Kind.members] using hm)
  obtain ⟨hname', -⟩ := hcx.member_id he (by simpa [Shape.members, hk, Kind.members] using hm')
  rw [hid, hname'] at hname
  exact (Option.some.inj hname).symm

theorem variant_ne {m : Member} (hm : m ∈ members) {text : String}
    (ht : text ∈ unionHelpers (className shape.id.name)) :
    className shape.id.name ++ Text.pascalCase m.name ≠ text := by
  rintro rfl
  have hown := h.variant_owns hcx he hk hm
  rw [hcx.variant_sym he hk hm] at hown
  have hid := h.owner_unique hown (h.union_owns hcx he hk ht)
  obtain ⟨hname, -⟩ := hcx.member_id he (by simpa [Shape.members, hk, Kind.members] using hm)
  rw [hid, he.id_member] at hname
  cases hname

/-- **A union defines each name once** exactly if its variants are apart. -/
theorem union_fresh_iff : Fresh cx shape ↔ (members.map Member.name).Nodup ∧
    ∀ m ∈ members, className shape.id.name ++ Text.pascalCase m.name ∉ baseErrors := by
  have hmap : (members.map fun m => className shape.id.name ++ Text.pascalCase m.name) =
      (members.map Member.name).map fun name => className shape.id.name ++ Text.pascalCase name := by
    rw [List.map_map]
    rfl
  have hpreamble : (∀ text ∈ modelTexts cx shape, text ∉ preambleNames cx.model) ↔
      ∀ m ∈ members, className shape.id.name ++ Text.pascalCase m.name ∉ baseErrors := by
    rw [union_texts hcx he hk, List.forall_mem_append, and_iff_left (unionHelpers_not_mem _ _)]
    simp only [List.forall_mem_map, variant_mem_iff]
  refine and_congr ?_ hpreamble
  rw [union_texts hcx he hk, List.nodup_append, and_iff_left, hmap]
  · refine ⟨fun hn => hn.of_map _, fun hn => hn.map_on ?_⟩
    intro name hname name' hname' hsame
    obtain ⟨m, hm, rfl⟩ := List.mem_map.1 hname
    obtain ⟨m', hm', rfl⟩ := List.mem_map.1 hname'
    exact h.variant_inj hcx he hk hm hm' hsame
  · refine ⟨unionHelpers_nodup _, ?_⟩
    intro text htext text' htext'
    obtain ⟨m, hm, rfl⟩ := List.mem_map.1 htext
    exact h.variant_ne hcx he hk hm htext'

end Unions

include hcx h he

theorem collection_texts {e : Member} (hk : shape.kind.element? = some e) (hc : cx.converted shape.id = true) :
    (functionNames cx shape.id).map Prod.snd =
      ["_serialize_" ++ Text.snakeCase shape.id.name, "_deserialize_" ++ Text.snakeCase shape.id.name] := by
  have hform := h.collection_of_cached hcx (h.known_of_emits he (by simp [lookups])) he.id_member he.2.1 hk
  have hwrite := hform.serializer?
  have hread := hform.deserializer?
  rw [← Context.converted_eq hform, if_pos hc] at hwrite hread
  simp [functionNames, Context.helper, hwrite, hread, modelClass, declared]

/-- The functions of a collection are never called like each other, or like the start of the module. -/
theorem collection_fresh {e : Member} (hk : shape.kind.element? = some e)
    (hnames : modelNames cx shape = if cx.converted shape.id then functionNames cx shape.id else []) : Fresh cx shape := by
  unfold Fresh modelTexts
  rw [hnames]
  cases hc : cx.converted shape.id with
  | false => simp
  | true =>
    obtain ⟨hwriter, hreader⟩ := function_not_mem (Text.snakeCase shape.id.name) cx.model
    rw [if_pos rfl, h.collection_texts hcx he hk hc]
    exact ⟨by simp, by simpa using ⟨hwriter, hreader⟩⟩

/-- **The names of a shape are fresh**, unless it is a union whose variants are not apart. -/
theorem fresh_iff : Fresh cx shape ↔ ∀ members, shape.kind = .union members → (members.map Member.name).Nodup ∧
    ∀ m ∈ members, className shape.id.name ++ Text.pascalCase m.name ∉ baseErrors := by
  have hclass : cx.sym shape.id = valueClass cx.package shape.id →
      modelNames cx shape = [((cx.sym shape.id).ns, (cx.sym shape.id).name)] → Fresh cx shape := by
    intro hsym hnames
    unfold Fresh modelTexts
    rw [hnames, hsym, valueClass_name]
    exact ⟨List.nodup_singleton _, by simpa using className_not_mem _ _⟩
  have hnone : modelNames cx shape = [] → Fresh cx shape := by
    intro hnames
    simp [Fresh, modelTexts, hnames]
  cases hk : shape.kind with
  | union members =>
    rw [h.union_fresh_iff hcx he hk]
    exact ⟨fun hapart _ heq => by cases heq; exact hapart, fun hall => hall members rfl⟩
  | struct members | enumeration values =>
    refine iff_of_true (hclass (hcx.sym_plain he.id_member he.2.1 hk rfl rfl) ?_) ?_
    · simp only [modelNames, hk]
    · rintro _ ⟨⟩
  | list e | set e | map k e =>
    refine iff_of_true (h.collection_fresh hcx he (by rw [hk]; rfl) ?_) ?_
    · simp only [modelNames, hk]
    · rintro _ ⟨⟩
  | scalar type | operation op | service service =>
    refine iff_of_true (hnone ?_) ?_
    · simp only [modelNames, hk]
    · rintro _ ⟨⟩

omit he

theorem modelTexts_disjoint {shape' : Shape} (he : cx.Emits shape) (he' : cx.Emits shape') (hne : shape.id ≠ shape'.id) :
    List.Disjoint (modelTexts cx shape) (modelTexts cx shape') := by
  intro text ht ht'
  obtain ⟨name, hn, rfl⟩ := List.mem_map.1 ht
  obtain ⟨name', hn', hsame⟩ := List.mem_map.1 ht'
  obtain ⟨hns, id, hown, hroot⟩ := h.modelNames_owner hcx he hn
  obtain ⟨hns', id', hown', hroot'⟩ := h.modelNames_owner hcx he' hn'
  have hname : name = name' := Prod.ext (hns.trans hns'.symm) hsame.symm
  rw [hname] at hown
  rw [h.owner_unique hown hown'] at hroot
  exact hne (hroot.symm.trans hroot')

end TypesKnown

/-! ### The whole module -/

namespace Package

/-- The names in the models module that are defined at a place in the order. -/
noncomputable def textsAt (cx : Context) (id : ShapeId) : List String :=
  match cx.model.get? id with
  | some shape => if shape.isEmitted then modelTexts cx shape else []
  | none => []

/-- The names that are defined for types in a module. -/
noncomputable def modelsTexts (cx : Context) : List String := preambleNames cx.model ++ cx.order.all.flatMap (textsAt cx)

theorem preambleNames_nodup (m : Model) : (preambleNames m).Nodup := by
  unfold preambleNames
  cases hasTimestamp m <;> decide

theorem textsAt_emits {cx : Context} {shape : Shape} (he : cx.Emits shape) : textsAt cx shape.id = modelTexts cx shape := by
  simp [textsAt, he.2.1, he.2.2]

/-- At a place in the order nothing is defined, or what an emitted shape defines. -/
theorem textsAt_cases {cx : Context} (hcx : cx.Standard) {id : ShapeId} (hid : id ∈ cx.order.all) :
    textsAt cx id = [] ∨ ∃ shape, cx.Emits shape ∧ shape.id = id ∧ textsAt cx id = modelTexts cx shape := by
  obtain ⟨shape, -, rfl, hs⟩ := hcx.placed id hid
  cases hemitted : shape.isEmitted with
  | false => exact .inl (by simp [textsAt, hs, hemitted])
  | true => exact .inr ⟨shape, ⟨hid, hs, hemitted⟩, rfl, by simp [textsAt, hs, hemitted]⟩

end Package

/-- **The models module defines each name once** exactly if variants are apart. -/
theorem TypesKnown.modelsTexts_nodup_iff {cx : Context} {t : Table} (hcx : cx.Standard) (h : TypesKnown cx t)
    (hnodup : cx.order.all.Nodup) : (modelsTexts cx).Nodup ↔ cx.VariantsApart := by
  unfold modelsTexts
  rw [List.nodup_append, List.nodup_flatMap]
  constructor
  · rintro ⟨-, ⟨hnodups, -⟩, hstart⟩ shape members he hk
    refine (h.fresh_iff hcx he).1 ⟨?_, fun text ht hpre => ?_⟩ members hk
    · rw [← textsAt_emits he]
      exact hnodups shape.id he.1
    · rw [← textsAt_emits he] at ht
      exact hstart text hpre text (List.mem_flatMap.2 ⟨shape.id, he.1, ht⟩) rfl
  · intro hapart
    have hfresh : ∀ shape, cx.Emits shape → Fresh cx shape :=
      fun shape he => (h.fresh_iff hcx he).2 fun members hk => hapart shape members he hk
    refine ⟨preambleNames_nodup _, ⟨fun id hid => ?_, ?_⟩, fun text hpre text' ht => ?_⟩
    · rcases textsAt_cases hcx hid with hnone | ⟨shape, he, -, heq⟩
      · rw [hnone]
        exact List.nodup_nil
      · rw [heq]
        exact (hfresh shape he).1
    · refine hnodup.imp_of_mem fun {id id'} hid hid' hne => ?_
      -- two places with names are those of different shapes
      rcases textsAt_cases hcx hid with hnone | ⟨shape, he, hshape, heq⟩
      · simp [Function.onFun, hnone]
      · rcases textsAt_cases hcx hid' with hnone' | ⟨shape', he', hshape', heq'⟩
        · simp [Function.onFun, hnone']
        · rw [Function.onFun, heq, heq']
          exact h.modelTexts_disjoint hcx he he' (by rwa [hshape, hshape'])
    · obtain ⟨id, hid, ht⟩ := List.mem_flatMap.1 ht
      rcases textsAt_cases hcx hid with hnone | ⟨shape, he, -, heq⟩
      · rw [hnone] at ht
        cases ht
      · rw [heq] at ht
        rintro rfl
        exact (hfresh shape he).2 text ht hpre

namespace TypesKnown

variable {cx : Context} {t : Table} (hcx : cx.Standard) (h : TypesKnown cx t)

include hcx h

theorem schemaName_ne_models {id : ShapeId} (hid : cx.HasSchema id) :
    ((schemaName cx id).1 == cx.package ++ "." ++ modelsModule) = false := by
  rw [beq_eq_false_iff_ne]
  intro hns
  have hmodule := (h.schemaName_module hcx hid (by rw [hns]; exact models_mem cx.package)).1
  rw [hns] at hmodule
  exact models_ne_schemas cx.package hmodule

theorem shapeNames_models {shape : Shape} (he : cx.Emits shape) :
    ((shapeNames cx shape).filter fun name => name.1 == cx.package ++ "." ++ modelsModule) = modelNames cx shape := by
  have hschema := h.schemaName_ne_models hcx (.inr ⟨shape, he, rfl⟩)
  have hmodels : ((modelNames cx shape).filter fun name => name.1 == cx.package ++ "." ++ modelsModule) =
      modelNames cx shape :=
    List.filter_eq_self.2 fun name hn => beq_iff_eq.2 (h.modelNames_owner hcx he hn).1
  rw [shapeNames, List.filter_append, hmodels]
  split <;> simp [hschema]

/-- **The names of types in the models module.** -/
theorem typeNames_models :
    ((typeNames cx).filter fun name => name.1 == cx.package ++ "." ++ modelsModule).map Prod.snd = modelsTexts cx := by
  have hstart : ((preambleNames cx.model).map fun name => ((serviceError cx.package).ns, name)).filter
      (fun name => name.1 == cx.package ++ "." ++ modelsModule) =
      (preambleNames cx.model).map fun name => ((serviceError cx.package).ns, name) := by
    refine List.filter_eq_self.2 fun name hn => ?_
    obtain ⟨text, -, rfl⟩ := List.mem_map.1 hn
    exact beq_iff_eq.2 rfl
  have hshells : (cx.order.recursive.map (schemaName cx)).filter
      (fun name => name.1 == cx.package ++ "." ++ modelsModule) = [] := by
    refine List.filter_eq_nil_iff.2 fun name hn => ?_
    obtain ⟨id, hid, rfl⟩ := List.mem_map.1 hn
    rw [h.schemaName_ne_models hcx (.inl hid)]
    exact Bool.false_ne_true
  have hplace : ∀ id ∈ cx.order.all, ((namesAt cx id).filter fun name =>
      name.1 == cx.package ++ "." ++ modelsModule).map Prod.snd = textsAt cx id := by
    intro id hid
    obtain ⟨shape, -, rfl, hs⟩ := hcx.placed id hid
    cases hemitted : shape.isEmitted with
    | false => simp [namesAt, textsAt, hs, hemitted]
    | true =>
      have he : cx.Emits shape := ⟨hid, hs, hemitted⟩
      simp only [namesAt, hs, hemitted, if_true]
      rw [h.shapeNames_models hcx he, textsAt_emits he]
      rfl
  rw [typeNames, List.filter_append, List.filter_append, hstart, hshells, List.nil_append, List.map_append, List.map_map,
    List.filter_flatMap, List.map_flatMap, List.flatMap_congr hplace]
  simp [modelsTexts, Function.comp_def]

end TypesKnown

/-! ### Files of a run -/

namespace Package

/-- The names that a file defines at its top level, in order. -/
def Run.definitionsIn (run : Run) (path : String) : List String :=
  (run.edits.filter fun e => e.path == path).flatMap fun e => Step.definitionsAll e.script

theorem moduleFile_inj {package sub sub' : String} (hsub : sub ∈ submodules) (hsub' : sub' ∈ submodules)
    (h : moduleFile package sub = moduleFile package sub') : sub = sub' := by
  have hlist := congrArg String.toList h
  simp only [moduleFile, String.toList_append, List.append_assoc, List.append_cancel_left_eq,
    List.append_cancel_right_eq] at hlist
  have hinj : ∀ a ∈ submodules, ∀ b ∈ submodules,
      (Text.replaceChar '.' '/' a).toList = (Text.replaceChar '.' '/' b).toList → a = b := by
    decide +kernel
  exact hinj sub hsub sub' hsub' hlist

theorem definitions_filter (edits : List Edit) (ns : String) :
    ((edits.filter fun e => e.ns == ns).flatMap fun e => Step.definitionsAll e.script) =
      ((edits.flatMap View.edits.definitions).filter fun name => name.1 == ns).map Prod.snd := by
  induction edits with
  | nil => rfl
  | cons e edits ih =>
    rw [List.flatMap_cons, List.filter_append, List.map_append, ← ih]
    cases hns : e.ns == ns with
    | true | false => simp [hns, View.edits, List.filter_map, Function.comp_def]

/-- The file of a module defines the names that the run defines in the module. -/
theorem definitionsIn_eq {run : Run} {m : Model} {settings : Settings} (hmade : run.Made m settings) (sub : String)
    (hsub : sub ∈ submodules) : run.definitionsIn (moduleFile run.cx.package sub) =
      (run.definedNames.filter fun name => name.1 == run.cx.package ++ "." ++ sub).map Prod.snd := by
  have hplace : ∀ e ∈ run.edits, (e.path == moduleFile run.cx.package sub) = (e.ns == run.cx.package ++ "." ++ sub) := by
    intro e he
    obtain ⟨sub', hsub', hns, hpath⟩ := ((plan_conducts hmade {} Survey.tidy_empty).out e he).housed
    have hiff : e.path = moduleFile run.cx.package sub ↔ e.ns = run.cx.package ++ "." ++ sub := by
      rw [hns, hpath]
      constructor
      · intro h
        rw [moduleFile_inj hsub' hsub h]
        rfl
      · intro h
        rw [module_inj h]
        rfl
    rw [Bool.eq_iff_iff, beq_iff_eq, beq_iff_eq, hiff]
  unfold Run.definitionsIn Run.definedNames
  rw [List.filter_congr hplace]
  exact definitions_filter run.edits _

/-- A run whose plan succeeds has looked up the symbols of types, and it defines their names and those of a client. -/
theorem Run.definedNames_eq {run : Run} {settings : Settings} (hrun : run.Builtin settings) {client : Option Symbol}
    (hok : (run.plan {}).result = .ok client) : TypesKnown run.cx (run.plan {}).names ∧
      ∃ rest, run.definedNames = typeNames run.cx ++ rest ∧ ∀ name ∈ rest, ∃ protocol operations resolution,
        name ∈ clientNames run.cx protocol operations resolution (registeredSchemes run.plugins) := by
  have hcx := hrun.standard
  cases hartifact : run.cx.settings.artifact with
  | types =>
    obtain ⟨hknown, hnames, -⟩ := plan_names_types hcx.placed hok hartifact
    exact ⟨hknown, [], by rw [hnames, List.append_nil], by simp⟩
  | client =>
    obtain ⟨protocol, hprotocol, -⟩ := hrun.protocol
    obtain ⟨operations, resolution, hops, hres⟩ := resolution_of_ok hok hartifact
    obtain ⟨hknown, -, hnames, -⟩ := plan_names_client hcx.placed hrun.schemes hrun.properties hok hartifact hprotocol
      hops hres
    exact ⟨hknown, _, hnames, fun name hname => ⟨protocol, operations, resolution, hname⟩⟩

/-- The models module of such a run holds the names of types only. -/
theorem definedNames_models {run : Run} {settings : Settings} (hrun : run.Builtin settings) {client : Option Symbol}
    (hok : (run.plan {}).result = .ok client) :
    (run.definedNames.filter fun name => name.1 == run.cx.package ++ "." ++ modelsModule) =
      (typeNames run.cx).filter fun name => name.1 == run.cx.package ++ "." ++ modelsModule := by
  obtain ⟨-, rest, hnames, hrest⟩ := Run.definedNames_eq hrun hok
  rw [hnames, List.filter_append, List.append_right_eq_self, List.filter_eq_nil_iff]
  -- the names of a client are in modules of their own
  rintro ⟨ns, text⟩ hname hns
  cases eq_of_beq hns
  obtain ⟨protocol, operations, resolution, hname⟩ := hrest _ hname
  have hne : modelsModule ≠ clientModule ∧ modelsModule ≠ authModule ∧
      modelsModule ∉ [configModule, serializeModule, deserializeModule] := by decide
  rcases mem_clientNames hrun.standard hname with ⟨hsub, -⟩ | ⟨hsub, -⟩ | hsub
  · exact hne.1 hsub
  · exact hne.2.1 hsub
  · exact hne.2.2 hsub

theorem plan_of_generate {m : Model} {settings : Settings} {files : Manifest} {run : Run}
    (hrun : Run.of [] m settings = .ok run) (h : generate [] m settings = .ok files) :
    ∃ client, (run.plan {}).result = .ok client := by
  obtain ⟨run', hrun', h⟩ := bind_ok_iff.1 h
  cases hrun.symm.trans hrun'
  obtain ⟨_, hcarried, -⟩ := bind_ok_iff.1 h
  obtain ⟨_, -, hcarried⟩ := bind_ok_iff.1 hcarried
  obtain ⟨client, hplan, -⟩ := bind_ok_iff.1 hcarried
  exact ⟨client, hplan⟩

/-- **When a models module defines each name once.** Generation succeeds only if the plan of its run does. If the model
names its members after the shapes that hold them, as models that are read from documents do, the models module of
such a run defines no name twice exactly if the variants of its unions are apart. -/
theorem definitionsIn_nodup_iff {m : Model} (hm : m.NamesMembers) {settings : Settings} {run : Run}
    (hrun : Run.of [] m settings = .ok run) :
    (∀ files, generate [] m settings = .ok files → ∃ client, (run.plan {}).result = .ok client) ∧
      ∀ client, (run.plan {}).result = .ok client →
        ((run.definitionsIn (moduleFile settings.module modelsModule)).Nodup ↔ run.cx.VariantsApart) := by
  refine ⟨fun _ => plan_of_generate hrun, fun client hplan => ?_⟩
  have hmade := Run.of_ok hrun
  have hprepared := prepare_ok hmade.context
  have hbuiltin := Run.of_builtin hm hrun
  obtain ⟨htypes, -⟩ := Run.definedNames_eq hbuiltin hplan
  obtain ⟨nodes, -, hvalid⟩ := EmissionOrder.valid_of_ok hprepared.order
  have hpackage : settings.module = run.cx.package := by rw [Context.package, hprepared.settings]
  rw [hpackage, definitionsIn_eq hmade modelsModule (by simp [submodules]),
    definedNames_models hbuiltin hplan,
    htypes.typeNames_models hbuiltin.standard]
  exact htypes.modelsTexts_nodup_iff hbuiltin.standard hvalid.nodup

/-- A union with a variant that is called like a base class of errors. -/
def errorUnion : Shape where
  id := { ns := "a", name := "Api" }
  kind := .union [{
    id := { ns := "a", name := "Api", member := some "error" }
    target := { ns := "smithy.api", name := "String" } }]

/-- A service that takes such unions. -/
def errorUnionModel : Model where
  shapes := [
    { id := { ns := "a", name := "S" }, kind := .service { operations := [{ ns := "a", name := "O" }] } },
    { id := { ns := "a", name := "O" }, kind := .operation { input := some errorUnion.id } },
    errorUnion]
  distinct := by decide

/-- Its run. -/
def errorUnionRun : Run where
  integrations := [httpAuth]
  cx := {
    model := errorUnionModel
    settings := sampleSettings
    provider := { package := "p" }
    order := ⟨[{ ns := "a", name := "Api" }, { ns := "a", name := "O" }, { ns := "a", name := "S" }], []⟩
    service := { id := { ns := "a", name := "S" }, kind := .service { operations := [{ ns := "a", name := "O" }] } } }
  plugins := httpAuth.plugins
  protocol := none

/-- **Not every models module defines each name once**: `ApiError` is a base class of errors and a variant. -/
theorem errorUnionRun_not_nodup : errorUnionModel.NamesMembers ∧
    Run.of [] errorUnionModel sampleSettings = .ok errorUnionRun ∧
    (∃ client, (errorUnionRun.plan {}).result = .ok client) ∧ ¬ (errorUnionRun.definitionsIn "p/models.py").Nodup := by
  have hm : errorUnionModel.NamesMembers := by
    unfold Model.NamesMembers
    decide
  have hrun : Run.of [] errorUnionModel sampleSettings = .ok errorUnionRun := by cbv
  have hplan : ∃ client, (errorUnionRun.plan {}).result = .ok client := by
    have hok : (errorUnionRun.plan {}).result.toOption.isSome = true := by decide +kernel
    cases h : (errorUnionRun.plan {}).result with
    | error e =>
      rw [h] at hok
      cases hok
    | ok client => exact ⟨client, rfl⟩
  refine ⟨hm, hrun, hplan, fun hnodup => ?_⟩
  obtain ⟨client, hplan⟩ := hplan
  have hfile : moduleFile sampleSettings.module modelsModule = "p/models.py" := by decide +kernel
  rw [← hfile] at hnodup
  have hapart := ((definitionsIn_nodup_iff hm hrun).2 client hplan).1 hnodup
  have hshape : errorUnionRun.cx.model.get? errorUnion.id = some errorUnion := by cbv
  have hvariant : className "Api" ++ Text.pascalCase "error" ∈ baseErrors := by decide +kernel
  exact (hapart errorUnion _ ⟨by decide, hshape, rfl⟩ rfl).2 _ List.mem_cons_self hvariant

end Package

end ClientGen
