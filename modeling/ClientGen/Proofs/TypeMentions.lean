import ClientGen.Package.Generation
import ClientGen.Proofs.Mentions

/-!
# What the models and schemas modules mention and define

For each part of the two modules the exact condition under which everything it mentions is good, and the
names it defines, both in terms of the symbols that ids denote. What a module takes from elsewhere, and what every
package defines, is taken to be good in it (`Reading.Grounded`, `Reading.SchemasGrounded`), so the conditions are
about the targets of members only.

* `schema_yields`, `structureClass_yields`, `unionClasses_yields`, `enumClass_yields`, `collection_yields`:
  the declarations of one shape.
-/

namespace ClientGen

namespace Library

/-- The names that models modules take from elsewhere. -/
def models : List Symbol :=
  [dataclass, field, any, literal, selfType, strEnum, datetime, utc, decimal, b64decode, document, schema,
    shapeSerializer, shapeDeserializer, serializationError, smithyException]

/-- The names that schemas modules take from elsewhere, the schemas of the prelude apart. -/
def schemas : List Symbol := [schema, shapeId, shapeType, traitValue]

@[simp] theorem mem_models {s : Symbol} : s ∈ models ↔ s = dataclass ∨ s = field ∨ s = any ∨ s = literal ∨
    s = selfType ∨ s = strEnum ∨ s = datetime ∨ s = utc ∨ s = decimal ∨ s = b64decode ∨ s = document ∨ s = schema ∨
    s = shapeSerializer ∨ s = shapeDeserializer ∨ s = serializationError ∨ s = smithyException := by
  simp [models]

@[simp] theorem mem_schemas {s : Symbol} :
    s ∈ schemas ↔ s = schema ∨ s = shapeId ∨ s = shapeType ∨ s = traitValue := by
  simp [schemas]

end Library

/-- Of a shape without members only the shape itself has a symbol. -/
theorem Provider.Denotes.id_eq {p : Provider} {m : Model} {id : ShapeId} {s : Symbol} {shape : Shape}
    (h : p.Denotes m id s) (hs : m.get? id = some shape) (hm : shape.members = []) : shape.id = id := by
  have hid : id.member = none := by
    cases h with
    | standsFor hst =>
      obtain ⟨name, shape', -, hs', hm'⟩ := standsFor?_eq_some hst
      rw [hs] at hs'
      cases hs'
      simp [Shape.member?, hm] at hm'
    | variant hid hs' hk hm' =>
      rw [hs] at hs'
      cases hs'
      simp [Shape.member?, hm] at hm'
    | plain hid => exact hid
    | collection hid => exact hid
  rw [(Model.get?_id hs).1]
  unfold ShapeId.root
  rw [← hid]

theorem Package.hasTimestamp_of_member {m : Model} {member : Member} {shape : Shape}
    (hm : member ∈ m.shapes.flatMap Shape.members) (hs : m.get? member.target = some shape)
    (hk : shape.kind = .scalar .timestamp) : hasTimestamp m = true := by
  unfold hasTimestamp
  rw [Bool.or_eq_true]
  unfold Model.get? at hs
  split at hs
  · rename_i hd
    cases hs
    refine .inl (List.any_eq_true.2 ⟨_, Model.mem_of_declared? hd, ?_⟩)
    unfold Shape.isTimestamp
    rw [hk]
  · refine .inr (List.any_eq_true.2 ⟨member, hm, ?_⟩)
    unfold Prelude.shape? at hs
    split at hs
    · cases hs
      cases hk
    · split at hs
      · rename_i hp
        obtain ⟨e, he, rfl⟩ := Option.map_eq_some_iff.1 hs
        cases hk' : e.2 with
        | timestamp =>
          have hname : ∀ e ∈ Prelude.scalars, e.2 = .timestamp → e.1 = "Timestamp" := by decide
          have hkey : e.1 = member.target.name := by simpa [ShapeId.root] using List.find?_some he
          have hpre : member.target.isPrelude = true := (Bool.and_eq_true_iff.1 hp).1
          rw [hpre, ← hkey, hname e (List.mem_of_find?_eq_some he) hk']
          rfl
        | _ => simp [hk'] at hk
      · cases hs

/-- Has the collection functions of its own? -/
noncomputable def Context.converted (cx : Context) (id : ShapeId) : Bool :=
  ((cx.sym id).property? Symbol.serializerRole).isSome && ((cx.sym id).property? Symbol.deserializerRole).isSome

/-- The module that holds the schema of a shape. -/
noncomputable def Context.schemaHome (cx : Context) (id : ShapeId) : String := (cx.helper id Symbol.schemaRole).ns

/-- The module that holds the functions of a collection, or the classes of another shape. -/
noncomputable def Context.home (cx : Context) (shape : Shape) : String :=
  if shape.kind.element?.isSome then (cx.helper shape.id Symbol.serializerRole).ns else (cx.sym shape.id).ns

/-- The targets whose schemas a schema lists. -/
def Package.entryTargets : Kind → List ShapeId
  | .enumeration values => values.map fun _ => Prelude.unit
  | kind => kind.members.map Member.target

/-- Is anything declared for the shape? Not for definitions of traits, and what there is for operations and
services belongs to the client. -/
def Shape.isEmitted (s : Shape) : Bool :=
  !s.isTraitDefinition && match s.kind with
    | .operation _ | .service _ => false
    | _ => true

/-- The ids in the order are those of the model's shapes. -/
def Context.Placed (cx : Context) : Prop :=
  ∀ id ∈ cx.order.all, ∃ shape ∈ cx.model.shapes, shape.id = id ∧ cx.model.get? id = some shape

/-- The shape has its place in the order, and is declared there. -/
def Context.Emits (cx : Context) (shape : Shape) : Prop :=
  shape.id ∈ cx.order.all ∧ cx.model.get? shape.id = some shape ∧ shape.isEmitted = true

namespace Reading

open Package

/-- What comes from elsewhere, and what every models module starts with, is good in a models module. -/
structure Grounded (r : Reading) : Prop where
  library : ∀ s ∈ Library.models, r.Good s
  apiError : r.Good (apiError r.cx.package)
  timestamp : hasTimestamp r.cx.model = true → r.Good (defaultTimestamp r.cx.package)

/-- What comes from elsewhere is good in a schemas module. -/
structure SchemasGrounded (r : Reading) : Prop where
  library : ∀ s ∈ Library.schemas, r.Good s

/-- Both hold, where the models module starts and where shells of schemas are. -/
structure TypesGrounded (r : Reading) : Prop where
  models : (r.inside (Package.serviceError r.cx.package).ns).Grounded
  schemas : ∀ id ∈ r.cx.order.recursive, (r.inside (r.cx.schemaHome id)).SchemasGrounded

/-- The helper is good, if there is one. -/
def HelperGood (r : Reading) (target : ShapeId) (role : String) : Prop :=
  ∀ helper, (r.cx.sym target).property? role = some helper → r.Good helper

/-- What a statement that writes a value needs. -/
def WriteGood (r : Reading) (target : ShapeId) : Prop :=
  ∀ shape, r.cx.model.get? target = some shape → shape.kind.element?.isSome →
    r.HelperGood target Symbol.serializerRole

/-- What an expression that reads a value needs. -/
def ReadGood (r : Reading) (target : ShapeId) : Prop :=
  ∀ shape, r.cx.model.get? target = some shape → match shape.kind with
    | .enumeration _ | .struct _ => r.Good (r.cx.sym target)
    | .union _ | .list _ | .set _ | .map _ _ => r.HelperGood target Symbol.deserializerRole
    | .scalar _ | .operation _ | .service _ => True

/-- The target has a schema, and the constant that holds it is good. -/
def SchemaGood (r : Reading) (target : ShapeId) : Prop :=
  ∃ schema, (r.cx.sym target).property? Symbol.schemaRole = some schema ∧ r.Good schema

/-- What the mentions of a target as a type of values need. -/
def ValueGood (r : Reading) (target : ShapeId) : Prop :=
  r.Good (r.cx.sym target) ∧ r.WriteGood target ∧ r.ReadGood target

/-- Where a shape is declared, all is good that comes from elsewhere, and the names that are declared for the shape
itself as far as its declarations mention them. -/
structure OwnGood (r : Reading) (shape : Shape) : Prop where
  schemas : (r.inside (r.cx.schemaHome shape.id)).SchemasGrounded
  constant : (r.inside (r.cx.schemaHome shape.id)).Good (r.cx.helper shape.id Symbol.schemaRole)
  models : (r.inside (r.cx.home shape)).Grounded
  schema : (r.inside (r.cx.home shape)).Good (r.cx.helper shape.id Symbol.schemaRole)
  union : ∀ members, shape.kind = .union members → (r.inside (r.cx.home shape)).Good (r.cx.sym shape.id) ∧
    (r.inside (r.cx.home shape)).Good (r.cx.helper shape.id Symbol.unknownRole)

/-- **What the declarations of a shape need**: the schemas of its members' targets, and the types of the
values that it converts. -/
def ShapeGood (r : Reading) (shape : Shape) : Prop :=
  (∀ target ∈ Package.entryTargets shape.kind, (r.inside (r.cx.schemaHome shape.id)).SchemaGood target) ∧
    match shape.kind with
    | .struct members => ∀ m ∈ members, (r.inside (r.cx.home shape)).ValueGood m.target
    | .union members => ∀ m ∈ members, (r.inside (r.cx.home shape)).Good (r.cx.sym m.id) ∧
        (r.inside (r.cx.home shape)).ValueGood m.target
    | .list e | .set e | .map _ e => r.cx.converted shape.id = true →
        (r.inside (r.cx.home shape)).Good (r.cx.sym shape.id) ∧ (r.inside (r.cx.home shape)).WriteGood e.target ∧
          (r.inside (r.cx.home shape)).ReadGood e.target
    | _ => True

end Reading

namespace Package

open Reading

/-- The functions of a collection. -/
noncomputable def functionNames (cx : Context) (id : ShapeId) : List (String × String) :=
  [cx.helper id Symbol.serializerRole, cx.helper id Symbol.deserializerRole].map fun f =>
    ((cx.helper id Symbol.serializerRole).ns, f.name)

/-- The constant that holds a shape's schema. -/
noncomputable def schemaName (cx : Context) (id : ShapeId) : String × String :=
  ((cx.helper id Symbol.schemaRole).ns, (cx.helper id Symbol.schemaRole).name)

/-- The names that a union defines. -/
noncomputable def unionNames (cx : Context) (id : ShapeId) (members : List Member) : List String :=
  (members.map fun m => (cx.sym m.id).name) ++
    [(cx.helper id Symbol.unknownRole).name, (cx.sym id).name, (cx.helper id Symbol.deserializerRole).name]

/-- The names in the models module that are defined for a shape. -/
noncomputable def modelNames (cx : Context) (shape : Shape) : List (String × String) :=
  match shape.kind with
  | .struct _ | .enumeration _ => [((cx.sym shape.id).ns, (cx.sym shape.id).name)]
  | .union members => (unionNames cx shape.id members).map fun name => ((cx.sym shape.id).ns, name)
  | .list _ | .set _ | .map _ _ => if cx.converted shape.id then functionNames cx shape.id else []
  | _ => []

/-- The names that are defined for a shape where it has its place in the order. -/
noncomputable def shapeNames (cx : Context) (shape : Shape) : List (String × String) :=
  (if cx.order.isRecursive shape.id then [] else [schemaName cx shape.id]) ++ modelNames cx shape

/-- The names that are defined at a place in the order. -/
noncomputable def namesAt (cx : Context) (id : ShapeId) : List (String × String) :=
  match cx.model.get? id with
  | some shape => if shape.isEmitted then shapeNames cx shape else []
  | none => []

/-- The ids that the declarations of a shape look up. -/
def lookups (shape : Shape) : List ShapeId :=
  shape.id :: entryTargets shape.kind ++ match shape.kind with
    | .union members => members.map Member.id
    | _ => []

/-- The ids that are looked up at a place in the order. -/
def knownAt (cx : Context) (id : ShapeId) : List ShapeId :=
  match cx.model.get? id with
  | some shape => if shape.isEmitted then lookups shape else []
  | none => []

/-- The ids that the models and schemas modules look up. -/
def typeIds (cx : Context) : List ShapeId := cx.order.recursive ++ cx.order.all.flatMap (knownAt cx)

/-- The names that the models module starts with. -/
def preambleNames (m : Model) : List String :=
  "logger" :: (if hasTimestamp m then ["_DEFAULT_TIMESTAMP"] else []) ++
    ["ServiceError", "ApiError", "UnknownApiError"]

/-- The names that the models and schemas modules define. -/
noncomputable def typeNames (cx : Context) : List (String × String) :=
  ((preambleNames cx.model).map fun name => ((serviceError cx.package).ns, name)) ++
    (cx.order.recursive.map (schemaName cx) ++ cx.order.all.flatMap (namesAt cx))

variable {r : Reading}

section Models

variable (hr : r.Grounded)

include hr

/-! ### The start of the models module -/

theorem serviceErrorClass_writes (service : Shape) :
    r.Writes (serviceErrorClass service) True ["ServiceError"] [] := by
  refine (Writes.define ((writes_docs _).seq fun _ => writes_line)).congr ?_ rfl (by simp)
  simp [hr.library]

theorem apiErrorClass_writes : r.Writes apiErrorClass True ["ApiError"] [] := by
  refine (writes_line.seq fun _ => Writes.define <| (writes_docs _).seq fun _ => writes_newline.seq fun _ =>
    writes_defineLine.seq fun _ => (writes_docs _).seq fun _ => writes_newline.seq fun _ =>
    writes_defineLine.seq fun _ => (writes_docs _).seq fun _ => writes_newline.seq fun _ =>
    writes_defineLine.seq fun _ => writes_newline.seq fun _ => writes_line.block).congr ?_ rfl (by simp)
  simp [hr.library]

theorem unknownApiErrorClass_writes : r.Writes unknownApiErrorClass True ["UnknownApiError"] [] := by
  refine (writes_line.seq fun _ => Writes.define <| (writes_docs _).seq fun _ => writes_newline.seq fun _ =>
    writes_defineLine).congr ?_ rfl (by simp)
  simp [hr.library]

theorem timestampConstant_writes : r.Writes timestampConstant True ["_DEFAULT_TIMESTAMP"] [] := by
  refine (writes_defineLine.seq fun _ => writes_separate).congr ?_ rfl (by simp)
  simp [hr.library]

omit hr in
theorem preamble_yields (hr : (r.inside (serviceError r.cx.package).ns).Grounded) :
    r.Yields .edits (preamble r.cx) True
      ((preambleNames r.cx.model).map fun name => ((serviceError r.cx.package).ns, name)) [] fun _ => True := by
  refine Writes.edit (Writes.congr ((writes_emit _).seq fun _ => writes_defineLine.seq fun _ =>
    writes_separate.seq fun _ => (timestampConstant_writes hr).onlyIf.seq fun _ => Writes.scope <|
    (serviceErrorClass_writes hr _).seq fun _ => writes_separate.seq fun _ =>
    (apiErrorClass_writes hr).seq fun _ => writes_separate.seq fun _ =>
    (unknownApiErrorClass_writes hr).seq fun _ => writes_separate) ?_ ?_ (by simp))
  · simp
  · simp [Step.definitions, preambleNames]

/-! ### Fields -/

omit hr in
theorem memberSchema_writes (here : String) (schema : Symbol) (name : String) :
    r.Writes (memberSchema here schema name) (r.Good schema) [] [] :=
  ((writes_reference here schema).seq fun _ => writes_pure _).congr (by simp) rfl (by simp)

omit hr in
theorem typeHint_writes (here : String) (target : ShapeId) (optional : Bool) :
    r.Yields .steps (typeHint r.cx here target optional) (r.Good (r.cx.sym target)) [] [target] fun _ =>
      r.cx.provider.Denotes r.cx.model target (r.cx.sym target) := by
  apply Yields.lookup
  intro hden
  refine Yields.weaken (Q := fun _ => True) ?_ fun _ _ => hden
  exact ((writes_reference here _).seq fun _ => writes_pure _).congr (by simp) rfl (by simp)

theorem factoryDefault_writes (here factory : String) : r.Writes (factoryDefault here factory) True [] [] :=
  ((writes_reference here _).seq fun _ => writes_pure _).congr (by simp [hr.library]) rfl (by simp)

theorem timestampDefault_writes (here : String) (v : Json) (hm : hasTimestamp r.cx.model = true) :
    r.Writes (timestampDefault r.cx here v) True [] [] := by
  unfold timestampDefault
  split
  · exact (writes_reference here _).congr (by simp [hr.timestamp hm]) rfl (by simp)
  · have hnumber := (writes_reference (r := r) here Library.datetime).seq fun d =>
      (writes_reference here Library.utc).seq fun u =>
      writes_pure (d ++ ".fromtimestamp(" ++ v.text ++ ", tz=" ++ u ++ ")")
    split
    · exact hnumber.congr (by simp [hr.library]) rfl (by simp)
    · exact hnumber.congr (by simp [hr.library]) rfl (by simp)
    · exact ((writes_reference here _).seq fun _ => writes_pure _).congr (by simp [hr.library]) rfl (by simp)
    · exact yields_fail _

theorem defaultExpression_writes (here : String) {target : ShapeId} {shape : Shape} (v : Json)
    (hs : r.cx.model.get? target = some shape)
    (hden : r.cx.provider.Denotes r.cx.model target (r.cx.sym target))
    (ht : shape.kind = .scalar .timestamp → hasTimestamp r.cx.model = true) :
    ∃ N, (r.Good (r.cx.sym target) → N) ∧ r.Writes (defaultExpression r.cx here target v) N [] [] := by
  unfold defaultExpression
  obtain ⟨id, kind, traits⟩ := shape
  have hquiet : ∀ {x : Plan Step String}, r.Writes x True [] [] →
      ∃ N, (r.Good (r.cx.sym target) → N) ∧ r.Writes x N [] [] := fun h => ⟨True, fun _ => trivial, h⟩
  cases kind with
  | list e | set e | map k v => exact hquiet (Writes.shape hs (factoryDefault_writes hr _ _))
  | enumeration values =>
    cases v with
    | str s => 
      have hid : id = target := hden.id_eq hs rfl
      subst hid
      refine ⟨r.Good (r.cx.sym id), fun h => h, Writes.shape hs ?_⟩
      refine Writes.congr (Writes.lookup fun _ => (writes_reference here _).seq fun _ => Writes.except fun _ _ =>
        writes_pure _) ?_ ?_ ?_ <;> simp
    | _ => exact hquiet (Writes.shape hs (writes_pure _))
  | scalar type =>
    cases type with
    | timestamp => exact hquiet (Writes.shape hs (timestampDefault_writes hr _ _ (ht rfl)))
    | blob =>
      cases v with
      | str s =>
        refine hquiet (Writes.shape hs ?_)
        dsimp only
        split
        · exact writes_pure _
        · exact ((writes_reference here _).seq fun _ => writes_pure _).congr (by simp [hr.library]) rfl (by simp)
      | _ => exact hquiet (Writes.shape hs (writes_pure _))
    | bigDecimal =>
      exact hquiet (Writes.shape hs (((writes_reference here _).seq fun _ => writes_pure _).congr
        (by simp [hr.library]) rfl (by simp)))
    | document =>
      exact hquiet (Writes.shape hs (((writes_reference here _).seq fun _ => (writes_reference here _).seq fun _ =>
        writes_pure _).congr (by simp [hr.library]) rfl (by simp)))
    | _ => exact hquiet (Writes.shape hs (writes_pure _))
  | _ => exact hquiet (Writes.shape hs (writes_pure _))

theorem memberDefault_writes (here : String) {m : Member} {shape : Shape}
    (hs : r.cx.model.get? m.target = some shape)
    (hden : r.cx.provider.Denotes r.cx.model m.target (r.cx.sym m.target))
    (ht : shape.kind = .scalar .timestamp → hasTimestamp r.cx.model = true) :
    ∃ N, (r.Good (r.cx.sym m.target) → N) ∧ r.Writes (memberDefault r.cx here m) N [] [] := by
  unfold memberDefault
  split
  · exact ⟨True, fun _ => trivial, writes_pure _⟩
  · obtain ⟨N, hN, hw⟩ := defaultExpression_writes hr here _ hs hden ht
    exact ⟨N, hN, (hw.seq fun _ => writes_pure _).congr (by simp) rfl (by simp)⟩

/-! ### Reading and writing values -/

omit hr in
theorem byHelper_writes {target : ShapeId} {role : String} {with? : Symbol → Plan Step Unit}
    {without : Plan Step Unit} (hwith : ∀ helper, r.Writes (with? helper) (r.Good helper) [] [])
    (hwithout : r.Writes without True [] []) :
    r.Writes (r.cx.symbol target >>= fun s => match s.property? role with
      | some helper => with? helper
      | none => without) (r.HelperGood target role) [] [] := by
  have hbody : r.Writes (match (r.cx.sym target).property? role with
      | some helper => with? helper
      | none => without) (r.HelperGood target role) [] [] := by
    unfold HelperGood
    cases hp : (r.cx.sym target).property? role with
    | some helper => exact (hwith helper).congr (by simp) rfl (by simp)
    | none => exact hwithout.congr (by simp) rfl (by simp)
  exact Writes.congr (Writes.lookup fun _ => hbody) Iff.rfl rfl (by simp)

omit hr in
theorem writeValue_writes (target : ShapeId) (serializer schema value : String) :
    r.Writes (writeValue r.cx target serializer schema value) (r.WriteGood target) [] [] := by
  unfold writeValue
  cases hs : r.cx.model.get? target with
  | none => exact writes_noShape hs
  | some shape =>
    apply Writes.shape hs
    obtain ⟨id, kind, traits⟩ := shape
    have hhelper : kind.element?.isSome → (r.HelperGood target Symbol.serializerRole ↔ r.WriteGood target) := by
      intro he
      simp [WriteGood, hs, he]
    cases kind with
    | list e | set e | map k v =>
      exact (byHelper_writes (fun _ => writes_line.congr (by simp) rfl (by simp))
        (writes_line.congr (by simp) rfl (by simp))).congr (hhelper rfl) rfl (by simp)
    | operation op | service s => exact yields_fail _
    | _ => exact writes_line.congr (by simp [WriteGood, hs, Kind.element?]) rfl (by simp)

omit hr in
theorem readValue_writes (target : ShapeId) (deserializer schema : String) :
    r.Writes (readValue r.cx target deserializer schema) (r.ReadGood target) [] [] := by
  unfold readValue
  cases hs : r.cx.model.get? target with
  | none => exact writes_noShape hs
  | some shape =>
    apply Writes.shape hs
    obtain ⟨id, kind, traits⟩ := shape
    cases kind with
    | enumeration values | struct members =>
      exact Writes.congr (Writes.lookup fun _ => writes_inline) (by simp [ReadGood, hs]) rfl (by simp)
    | union members =>
      have hread : (r.cx.sym target).property? Symbol.deserializerRole =
            some (r.cx.helper target Symbol.deserializerRole) →
          r.Writes (Plan.inline "$T().deserialize($L)" [r.cx.helper target Symbol.deserializerRole, deserializer])
            (r.ReadGood target) [] [] := fun hp =>
        writes_inline.congr (by simp [ReadGood, HelperGood, hs, hp]) rfl (by simp)
      exact Writes.congr (Writes.lookup fun _ => Writes.property hread) Iff.rfl rfl (by simp)
    | list e | set e | map k v =>
      exact (byHelper_writes (fun _ => writes_inline.congr (by simp) rfl (by simp))
        (writes_inline.congr (by simp) rfl (by simp))).congr (by simp [ReadGood, hs]) rfl (by simp)
    | operation op | service s => exact yields_fail _
    | scalar type => exact writes_inline.congr (by simp [ReadGood, hs]) rfl (by simp)

/-! ### Structures and enumerations -/

theorem errorFields_writes (s : Shape) : r.Writes (errorFields s) True ["code", "fault"] [] :=
  Writes.congr (Writes.except fun _ _ => (writes_defineLine.quiet (by simp [hr.library])).seq fun _ =>
    (writes_defineLine.quiet (by simp [hr.library])).seq fun _ => writes_newline) (by simp) rfl (by simp)

omit hr in
theorem fieldLine_writes (name hint : String) (default : Option String) :
    r.Writes (fieldLine name hint default) True [name] [] := by
  unfold fieldLine
  split <;> exact writes_defineLine.congr (by simp) rfl (by simp)

theorem memberField_writes (here : String) {m : Member} (hm : m ∈ r.cx.model.shapes.flatMap Shape.members) :
    r.Writes (memberField r.cx here m) (r.Good (r.cx.sym m.target)) [r.cx.memberName m] [] := by
  have hrest : ∀ hint given, r.Writes (do
      fieldLine (r.cx.memberName m) hint (given <|> if isOptional m then some "None" else none)
      Plan.trailingDocs m.traits.documentation
      Plan.newline) True [r.cx.memberName m] [] := fun hint given =>
    ((fieldLine_writes _ _ _).seq fun _ => (writes_trailingDocs _).seq fun _ => writes_newline).congr
      (by simp) rfl (by simp)
  have hhint := typeHint_writes (r := r) here m.target (isOptional m)
  unfold memberField
  by_cases hden : r.cx.provider.Denotes r.cx.model m.target (r.cx.sym m.target)
  · obtain ⟨shape, hs⟩ := hden.get?
    obtain ⟨N, hN, hdefault⟩ := memberDefault_writes hr here hs hden (hasTimestamp_of_member hm hs)
    exact Yields.congr (hhint.bind fun hint _ => Yields.bind hdefault fun given _ => hrest hint given)
      ⟨fun h => h.1, fun h => ⟨h, hN h, trivial⟩⟩ rfl (by simp)
  · have hnone : ∀ {x : Plan Step Unit}, r.cx.provider.Denotes r.cx.model m.target (r.cx.sym m.target) →
        r.Writes x True [r.cx.memberName m] [] := fun h => absurd h hden
    exact Yields.congr (hhint.bind fun hint h => hnone h) (by simp) rfl (by simp)

section Members

variable (here : String) {schema : Symbol} (hschema : r.Good schema)

include hschema

omit hr in
theorem writeMember_writes (m : Member) :
    r.Writes (writeMember r.cx here schema m) (r.WriteGood m.target) [] [] := by
  have hwrite := fun text => writeValue_writes (r := r) m.target "serializer" text ("self." ++ r.cx.memberName m)
  exact Writes.congr ((memberSchema_writes here schema m.name).seq fun text =>
    Writes.ite ((hwrite text).block.congr (by simp) rfl (by simp)) (hwrite text)) (by simp [hschema]) rfl (by simp)

omit hr in
theorem writeMembers_writes (members : List Member) :
    r.Writes (if members.isEmpty then Plan.line "pass" [] else members.forM (writeMember r.cx here schema))
      (∀ m ∈ members, r.WriteGood m.target) [] [] := by
  cases members with
  | nil => exact writes_line.congr (by simp) rfl (by simp)
  | cons m rest =>
    exact Yields.congr (yields_forM fun m _ => writeMember_writes here hschema m) Iff.rfl (by simp) (by simp)

omit hr in
theorem readMember_writes (index : Nat) (m : Member) :
    r.Writes (readMember r.cx here schema index m) (r.ReadGood m.target) [] [] := by
  refine Writes.congr ((memberSchema_writes here schema m.name).seq fun memberSchema =>
    (readValue_writes m.target "de" memberSchema).lineWith.block.seq fun _ => writes_newline) ?_ rfl (by simp)
  simp [hschema]

omit hr hschema in
theorem unexpectedMember_writes : r.Writes unexpectedMember True [] [] :=
  writes_line.block.congr (by simp) rfl (by simp)

omit hr hschema in
theorem forM_zipIdx_writes {members : List Member} {f : Nat → Member → Plan Step Unit} {n : Member → Prop}
    (h : ∀ index, ∀ m ∈ members, r.Writes (f index m) (n m) [] []) :
    r.Writes (members.zipIdx.forM fun (m, index) => f index m) (∀ m ∈ members, n m) [] [] := by
  have hloop : r.Writes (members.zipIdx.forM fun (m, index) => f index m) (∀ b ∈ members.zipIdx, n b.1)
      (members.zipIdx.flatMap fun _ => []) (members.zipIdx.flatMap fun _ => []) :=
    yields_forM fun b hb => h b.2 b.1 (List.fst_mem_of_mem_zipIdx hb)
  refine hloop.congr ⟨fun hn m hm => ?_, fun hn b hb => hn b.1 (List.fst_mem_of_mem_zipIdx hb)⟩ (by simp) (by simp)
  obtain ⟨i, hi, rfl⟩ := List.getElem_of_mem hm
  exact hn (members[i], i) (List.mk_mem_zipIdx_iff_getElem?.2 (List.getElem?_eq_getElem hi))

omit hr in
theorem memberDispatch_writes (members : List Member) :
    r.Writes (memberDispatch r.cx here schema members) (∀ m ∈ members, r.ReadGood m.target) [] [] := by
  refine Writes.congr (Writes.block ((forM_zipIdx_writes fun index m _ =>
    readMember_writes here hschema index m).seq fun _ => unexpectedMember_writes)) ?_ rfl (by simp)
  simp

omit hr hschema in
theorem mem_fieldOrder {members : List Member} {m : Member} : m ∈ fieldOrder members ↔ m ∈ members := by
  simp only [fieldOrder, List.mem_append, List.mem_filter]
  cases m.isRequired && (defaultValue? m).isNone <;> simp

/-- The names in a structure's class. -/
def fieldNames (cx : Context) (shape : Shape) (members : List Member) : List String :=
  (if shape.isError then ["code", "fault"] else []) ++ (fieldOrder members).flatMap fun m => [cx.memberName m]

theorem structureBody_writes (shape : Shape) {members : List Member}
    (hm : ∀ m ∈ members, m ∈ r.cx.model.shapes.flatMap Shape.members) :
    r.Writes (structureBody r.cx here shape members schema) (∀ m ∈ members, r.ValueGood m.target)
      (fieldNames r.cx shape members) [] := by
  have hfields : r.Writes ((fieldOrder members).forM (memberField r.cx here))
      (∀ m ∈ members, r.Good (r.cx.sym m.target)) ((fieldOrder members).flatMap fun m => [r.cx.memberName m]) [] :=
    Yields.congr (yields_forM fun m h => memberField_writes hr here (hm m (mem_fieldOrder.1 h)))
      (by simp [mem_fieldOrder]) rfl (by simp)
  refine Writes.congr ((writes_leadingDocs _).seq fun _ => (errorFields_writes hr shape).onlyIf.seq fun _ =>
    hfields.seq fun _ => writes_line.block.seq fun _ => writes_newline.seq fun _ =>
    (writeMembers_writes here hschema members).block.seq fun _ => writes_newline.seq fun _ =>
    writes_line.seq fun _ => writes_line.block.seq fun _ => writes_newline.seq fun _ =>
    writes_line.seq fun _ => Writes.block <| writes_line.seq fun _ => writes_newline.seq fun _ =>
    (memberDispatch_writes here hschema members).block.seq fun _ => writes_newline.seq fun _ =>
    writes_line.seq fun _ => writes_line) ?_ ?_ (by simp)
  · simp [hr.library, hschema, ValueGood, forall_and]
  · simp [fieldNames]

end Members

omit hr in
theorem structureClass_yields {shape : Shape} {members : List Member}
    (hr : (r.inside (r.cx.sym shape.id).ns).Grounded)
    (hschema : (r.inside (r.cx.sym shape.id).ns).Good (r.cx.helper shape.id Symbol.schemaRole))
    (hm : ∀ m ∈ members, m ∈ r.cx.model.shapes.flatMap Shape.members) :
    r.Yields .edits (structureClass r.cx shape members)
      (∀ m ∈ members, (r.inside (r.cx.sym shape.id).ns).ValueGood m.target)
      [((r.cx.sym shape.id).ns, (r.cx.sym shape.id).name)] [shape.id] fun _ => True := by
  have hbody := structureBody_writes hr (r.cx.sym shape.id).ns hschema shape hm
  exact Yields.congr (Yields.lookup fun _ => Yields.property fun _ => Writes.edit <|
    (Writes.scope <| writes_line.seq fun _ => Writes.ite
      (hbody.defineGood (by simp [hr.library, hr.apiError]))
      (hbody.defineGood (by simp))).seq fun _ => writes_separate)
    (by simp [hr.library]) rfl (by simp)

omit hr in
theorem enumConstant_writes (v : EnumValue) : r.Writes (enumConstant v) True [constantName v.name] [] :=
  (writes_defineLine.seq fun _ => writes_trailingDocs _).congr (by simp) rfl (by simp)

omit hr in
theorem enumClass_yields {shape : Shape} (hr : (r.inside (r.cx.sym shape.id).ns).Grounded) (values : List EnumValue) :
    r.Yields .edits (enumClass r.cx shape values) True
      [((r.cx.sym shape.id).ns, (r.cx.sym shape.id).name)] [shape.id] fun _ => True :=
  Yields.congr (Yields.lookup fun _ => Writes.edit <| (Writes.scope <| Writes.define <|
    (writes_leadingDocs _).seq fun _ => writes_line.onlyIf.seq fun _ =>
    yields_forM fun v _ => enumConstant_writes v).seq fun _ => writes_separate)
    (by simp [hr.library]) rfl (by simp)

/-! ### Unions -/

theorem raiseError_writes (message : String) : r.Writes (raiseError message) True [] [] :=
  writes_line.quiet (by simp [hr.library])

section Variants

variable (here : String) {schema : Symbol} (hschema : r.Good schema)

include hschema

theorem variantClass_writes (m : Member) (variant : Symbol) :
    r.Writes (variantClass r.cx here m variant schema) (r.ValueGood m.target) [variant.name] [] := by
  refine Yields.congr (Yields.bind (memberSchema_writes here schema m.name) fun text _ =>
    (typeHint_writes here m.target false).bind fun hint _ => writes_line.seq fun _ => Writes.define <|
    (writes_leadingDocs _).seq fun _ => (writes_defineLine.quiet (by simp)).seq fun _ =>
    writes_newline.seq fun _ => writes_line.block.seq fun _ => writes_newline.seq fun _ =>
    (writeValue_writes _ _ text _).block.seq fun _ => writes_newline.seq fun _ => writes_line.seq fun _ =>
    (readValue_writes _ _ text).lineWith.block) ?_ rfl (by simp)
  simp [hr.library, hschema, ValueGood]

theorem variantClasses_yields (members : List Member) :
    r.Yields .steps (variantClasses r.cx here schema members) (∀ m ∈ members, r.ValueGood m.target)
      (members.map fun m => (r.cx.sym m.id).name) (members.map Member.id)
      fun variants => variants = members.map fun m => r.cx.sym m.id := by
  induction members with
  | nil => exact Yields.congr (yields_pure [] rfl) (by simp) rfl (by simp)
  | cons m rest ih =>
    refine Yields.congr (Yields.lookup fun _ => Yields.bind
      (Writes.scope (variantClass_writes hr here hschema m _)) fun _ _ => Yields.bind writes_separate fun _ _ =>
      ih.bind fun variants hv => yields_pure _ (by rw [hv]; rfl)) ?_ ?_ ?_
    · simp
    · simp
    · simp

end Variants

theorem unknownClass_writes (unknown : Symbol) : r.Writes (unknownClass unknown) True [unknown.name] [] := by
  refine Writes.congr (writes_line.seq fun _ => Writes.define <| (writes_docs _).seq fun _ =>
    writes_newline.seq fun _ => writes_defineLine.seq fun _ => writes_newline.seq fun _ =>
    (raiseError_writes hr _).block.seq fun _ => writes_newline.seq fun _ =>
    (raiseError_writes hr _).block.seq fun _ => writes_newline.seq fun _ => writes_line.seq fun _ =>
    writes_line.block) ?_ rfl (by simp)
  simp [hr.library]

omit hr in
theorem readVariant_writes (index : Nat) (m : Member) :
    r.Writes (readVariant r.cx index m) (r.Good (r.cx.sym m.id)) [] [] :=
  Writes.congr (Writes.lookup fun _ => writes_line.block.seq fun _ => writes_newline) (by simp) rfl (by simp)

theorem unionReader_writes (members : List Member) {union schema : Symbol} (reader : Symbol)
    (hschema : r.Good schema) (hunion : r.Good union) :
    r.Writes (unionReader r.cx members union reader schema) (∀ m ∈ members, r.Good (r.cx.sym m.id))
      [reader.name] [] := by
  refine Writes.congr (Writes.define <| writes_defineLine.seq fun _ => writes_newline.seq fun _ =>
    (Writes.block <| writes_line.seq fun _ => writes_line.seq fun _ => writes_newline.seq fun _ =>
      (raiseError_writes hr _).block.seq fun _ => writes_newline.seq fun _ => writes_line).seq fun _ =>
    writes_newline.seq fun _ =>
    (Writes.block <| Writes.block <| (forM_zipIdx_writes fun index m _ => readVariant_writes index m).seq fun _ =>
      unexpectedMember_writes).seq fun _ =>
    writes_newline.seq fun _ =>
    Writes.block <| (raiseError_writes hr _).block.seq fun _ => writes_line) ?_ rfl (by simp)
  simp [hr.library, hschema, hunion]

omit hr in
theorem unionAlias_writes (union : Symbol) (classes : List Symbol) :
    r.Writes (unionAlias union classes) (∀ s ∈ classes, r.Good s) [union.name] [] := by
  have hargs : Arg.mentionsAll (classes.map Arg.name) = classes := by
    induction classes with
    | nil => rfl
    | cons s rest ih => simp [ih]
  exact writes_defineLine.congr (by rw [hargs]) rfl (by simp)

omit hr in
theorem unionClasses_yields {shape : Shape} (hr : (r.inside (r.cx.sym shape.id).ns).Grounded) (members : List Member)
    (hschema : (r.inside (r.cx.sym shape.id).ns).Good (r.cx.helper shape.id Symbol.schemaRole))
    (hunion : (r.inside (r.cx.sym shape.id).ns).Good (r.cx.sym shape.id))
    (hunknown : (r.inside (r.cx.sym shape.id).ns).Good (r.cx.helper shape.id Symbol.unknownRole)) :
    r.Yields .edits (unionClasses r.cx shape members)
      (∀ m ∈ members, (r.inside (r.cx.sym shape.id).ns).Good (r.cx.sym m.id) ∧
        (r.inside (r.cx.sym shape.id).ns).ValueGood m.target)
      ((unionNames r.cx shape.id members).map fun name => ((r.cx.sym shape.id).ns, name))
      (shape.id :: members.map Member.id) fun _ => True := by
  have hvariants := variantClasses_yields hr (r.cx.sym shape.id).ns hschema members
  have halias : ∀ variants, variants = (members.map fun m => r.cx.sym m.id) →
      (r.inside (r.cx.sym shape.id).ns).Writes
        (unionAlias (r.cx.sym shape.id) (variants ++ [r.cx.helper shape.id Symbol.unknownRole]))
        (∀ m ∈ members, (r.inside (r.cx.sym shape.id).ns).Good (r.cx.sym m.id)) [(r.cx.sym shape.id).name] [] := by
    rintro _ rfl
    refine (unionAlias_writes _ _).congr ?_ rfl (by simp)
    simp [or_imp, forall_and, hunknown]
  refine Yields.congr (Yields.lookup fun _ => Yields.property fun _ => Yields.property fun _ =>
    Yields.property fun _ => Writes.edit <| Writes.seq (Writes.scope <| hvariants.bind fun variants hv =>
      Writes.seq (unknownClass_writes hr _) fun _ => writes_separate.seq fun _ => (halias variants hv).seq fun _ =>
      (writes_trailingDocs _).seq fun _ => writes_separate.seq fun _ =>
      unionReader_writes hr members _ hschema hunion) fun _ => writes_separate) ?_ ?_ ?_
  · constructor
    · rintro ⟨⟨hvalues, -, -, hnames, -⟩, -⟩ m hm
      exact ⟨hnames m hm, hvalues m hm⟩
    · intro h
      have hvalues := fun m hm => (h m hm).2
      have hnames := fun m hm => (h m hm).1
      exact ⟨⟨hvalues, trivial, trivial, hnames, trivial, trivial, hnames⟩, trivial⟩
  · simp [unionNames]
  · simp

/-! ### Collections -/

section Functions

variable (function : Symbol) (hint : String) (element : Member)

theorem listWriter_writes :
    r.Writes (listWriter r.cx function hint element) (r.WriteGood element.target) [function.name] [] := by
  refine Writes.congr (Writes.define <| writes_line.seq fun _ => Writes.block <| Writes.block <|
    writeValue_writes _ _ _ _) ?_ rfl (by simp)
  simp [hr.library]

omit hr in
theorem readUnlessNull_writes {statement : Plan Step Unit} {N : Prop} (h : r.Writes statement N [] []) :
    r.Writes (readUnlessNull statement) N [] [] :=
  (writes_line.block.seq fun _ => h.block).congr (by simp) rfl (by simp)

theorem listReader_writes (empty add : String) :
    r.Writes (listReader r.cx function hint element empty add) (r.ReadGood element.target) [function.name] [] := by
  refine Writes.congr (Writes.define <| writes_line.seq fun _ => writes_line.seq fun _ =>
    (Writes.block <| readUnlessNull_writes (readValue_writes _ _ _).lineWith).seq fun _ =>
    writes_line.seq fun _ => writes_line) ?_ rfl (by simp)
  simp [hr.library]

theorem mapWriter_writes :
    r.Writes (mapWriter r.cx function hint element) (r.WriteGood element.target) [function.name] [] := by
  refine Writes.congr (Writes.define <| writes_line.seq fun _ => writes_newline.seq fun _ =>
    (writeValue_writes _ _ _ _).block.seq fun _ => writes_newline.seq fun _ => writes_line.block.block) ?_ rfl (by simp)
  simp [hr.library]

theorem mapReader_writes :
    r.Writes (mapReader r.cx function hint element) (r.ReadGood element.target) [function.name] [] := by
  refine Writes.congr (Writes.define <| writes_line.seq fun _ => writes_line.seq fun _ =>
    (Writes.block <| readUnlessNull_writes (readValue_writes _ _ _).lineWith).seq fun _ =>
    writes_line.seq fun _ => writes_line) ?_ rfl (by simp)
  simp [hr.library]

end Functions

theorem collectionFunctions_writes {kind : Kind} {element : Member} (hk : kind.element? = some element)
    (writer reader : Symbol) (hint : String) :
    r.Writes (collectionFunctions r.cx kind writer reader hint)
      (r.WriteGood element.target ∧ r.ReadGood element.target) [writer.name, reader.name] [] := by
  have hlist : ∀ empty add, r.Writes (do
      listWriter r.cx writer hint element
      Plan.separate
      listReader r.cx reader hint element empty add)
      (r.WriteGood element.target ∧ r.ReadGood element.target) [writer.name, reader.name] [] := by
    intro empty add
    refine ((listWriter_writes hr _ _ _).seq fun _ => writes_separate.seq fun _ =>
      listReader_writes hr _ _ _ _ _).congr ?_ rfl (by simp)
    simp
  cases kind <;> cases hk
  · exact hlist _ _
  · exact hlist _ _
  · refine ((mapWriter_writes hr _ _ _).seq fun _ => writes_separate.seq fun _ =>
      mapReader_writes hr _ _ _).congr ?_ rfl (by simp)
    simp

omit hr in
theorem collection_yields {shape : Shape} {element : Member} {here : String}
    (hhere : here = (r.cx.helper shape.id Symbol.serializerRole).ns) (hr : (r.inside here).Grounded)
    (hk : shape.kind.element? = some element) :
    r.Yields .edits (collection r.cx shape)
      (r.cx.converted shape.id = true → (r.inside here).Good (r.cx.sym shape.id) ∧
        (r.inside here).WriteGood element.target ∧ (r.inside here).ReadGood element.target)
      (if r.cx.converted shape.id then functionNames r.cx shape.id else []) [shape.id] fun _ => True := by
  refine Yields.congr (Yields.lookup fun _ => ?_) Iff.rfl rfl (List.Subset.refl _)
  unfold Context.helper at hhere
  unfold Context.converted functionNames Context.helper
  cases hw : (r.cx.sym shape.id).property? Symbol.serializerRole with
  | none => exact Yields.congr (yields_pure () trivial) (by simp) (by simp) (by simp)
  | some writer =>
    cases hd : (r.cx.sym shape.id).property? Symbol.deserializerRole with
    | none => exact Yields.congr (yields_pure () trivial) (by simp) (by simp) (by simp)
    | some reader =>
      rw [hw] at hhere
      subst hhere
      exact Yields.congr (Writes.edit <| (writes_emit _).seq fun _ =>
        (collectionFunctions_writes hr hk _ _ _).seq fun _ => writes_separate) (by simp)
        (by simp [Step.definitions]) (by simp)

end Models

/-! ### Schemas -/

section Schemas

variable (hr : r.SchemasGrounded)

include hr

theorem traitEntry_writes (id : ShapeId) (value : Json) : r.Writes (traitEntry id value) True [] [] :=
  Writes.ite (writes_line.quiet (by simp [hr.library])) (writes_line.quiet (by simp [hr.library]))

theorem traitList_writes (opening : String) (t : Traits) : r.Writes (traitList opening t) True [] [] := by
  unfold traitList
  split
  · exact writes_pure ()
  · have hentries : r.Writes ((keptTraits t).forM fun e => traitEntry e.1 e.2) True [] [] :=
      Yields.congr (yields_forM fun e _ => traitEntry_writes hr e.1 e.2) (by simp) (by simp) (by simp)
    exact Writes.congr (hentries.block.seq fun _ => writes_line) (by simp) rfl (by simp)

theorem memberEntry_writes (m : Member) :
    r.Writes (memberEntry r.cx m) (r.SchemaGood m.target) [] [m.target] :=
  Writes.congr (Writes.lookup fun _ => Writes.property fun hschema => Writes.congr ((Writes.block <|
    writes_line.seq fun _ => traitList_writes hr _ _).seq fun _ => writes_line) (by simp [SchemaGood, hschema]) rfl
    (List.Subset.refl _)) Iff.rfl rfl (by simp)

theorem constantEntry_writes (unit : Symbol) (v : EnumValue) :
    r.Writes (constantEntry unit v) (r.Good unit) [] [] :=
  Writes.congr ((Writes.block <| writes_line.seq fun _ => writes_line).seq fun _ => writes_line)
    (by simp [hr.library]) rfl (by simp)

theorem memberEntries_writes (kind : Kind) :
    r.Writes (memberEntries r.cx kind) (∀ target ∈ entryTargets kind, r.SchemaGood target) []
      (entryTargets kind) := by
  have hmembers : r.Writes (kind.members.forM (memberEntry r.cx)) (∀ m ∈ kind.members, r.SchemaGood m.target) []
      (kind.members.map Member.target) :=
    Yields.congr (yields_forM fun m _ => memberEntry_writes hr m) Iff.rfl (by simp)
      (by rw [List.map_eq_flatMap]; exact List.Subset.refl _)
  cases kind with
  | enumeration values =>
    exact Writes.congr (Writes.lookup fun _ => Writes.property fun hschema => Writes.congr (yields_forM fun v _ =>
      constantEntry_writes hr _ v) (by rw [entryTargets, List.forall_mem_map]; simp only [SchemaGood, hschema,
      Option.some.injEq, exists_eq_left']) rfl (List.Subset.refl _)) Iff.rfl (by simp)
      (by intro id hid; obtain ⟨_, -, rfl⟩ := List.mem_map.1 hid; simp)
  | _ => exact hmembers.congr (by simp [entryTargets]) rfl (List.Subset.refl _)

theorem shapeTypeEntry_writes (kind : Kind) : r.Writes (shapeTypeEntry kind) True [] [] := by
  unfold shapeTypeEntry
  split
  · exact writes_pure ()
  · exact writes_line.quiet (by simp [hr.library])

theorem membersEntry_writes (kind : Kind) :
    r.Writes (membersEntry r.cx kind) (∀ target ∈ entryTargets kind, r.SchemaGood target) []
      (entryTargets kind) :=
  Writes.congr ((memberEntries_writes hr kind).block.seq fun _ => writes_line) (by simp) rfl (by simp)

theorem schemaConstant_writes (shape : Shape) (withMembers : Bool) :
    r.Writes (schemaConstant r.cx shape withMembers)
      (withMembers = true → ∀ target ∈ entryTargets shape.kind, r.SchemaGood target)
      [(r.cx.helper shape.id Symbol.schemaRole).name]
      (shape.id :: if withMembers then entryTargets shape.kind else []) := by
  refine Writes.congr (Writes.lookup fun _ => Writes.property fun _ => (writes_emit _).seq fun _ =>
    (Writes.define <| writes_line.seq fun _ => (shapeTypeEntry_writes hr _).seq fun _ =>
      (traitList_writes hr _ _).seq fun _ => (membersEntry_writes hr _).onlyIf).seq fun _ => writes_line) ?_ ?_ ?_
  · simp [hr.library, apply_ite Arg.mentions]
  · simp [Step.definitions]
  · simp

omit hr in
theorem schemaShell_yields {shape : Shape} (hr : (r.inside (r.cx.schemaHome shape.id)).SchemasGrounded)
    (hs : r.cx.model.get? shape.id = some shape) :
    r.Yields .edits (schemaShell r.cx shape.id) True
      [schemaName r.cx shape.id] [shape.id]
      fun _ => True := by
  have hconstant := (schemaConstant_writes hr shape false).seq fun _ => writes_separate
  exact Yields.congr (Yields.known (Model.expect_eq_ok.2 hs) <| Yields.lookup fun _ => Yields.property fun _ =>
    hconstant.edit) (by simp) rfl (by simp)

omit hr in
theorem schema_yields {shape : Shape} (hr : (r.inside (r.cx.schemaHome shape.id)).SchemasGrounded)
    (hschema : (r.inside (r.cx.schemaHome shape.id)).Good (r.cx.helper shape.id Symbol.schemaRole)) :
    r.Yields .edits (schema r.cx shape)
      (∀ target ∈ entryTargets shape.kind, (r.inside (r.cx.schemaHome shape.id)).SchemaGood target)
      (if r.cx.order.isRecursive shape.id then [] else [schemaName r.cx shape.id])
      (shape.id :: entryTargets shape.kind) fun _ => True := by
  have hbody : (r.inside (r.cx.schemaHome shape.id)).Writes (if r.cx.order.isRecursive shape.id = true then do
        Plan.block "$L.update_members(\x7b" [.name (r.cx.helper shape.id Symbol.schemaRole)]
          (memberEntries r.cx shape.kind)
        Plan.line "\x7d)" []
      else schemaConstant r.cx shape (listsMembers shape.kind))
      (∀ target ∈ entryTargets shape.kind, (r.inside (r.cx.schemaHome shape.id)).SchemaGood target)
      (if r.cx.order.isRecursive shape.id then [] else [(r.cx.helper shape.id Symbol.schemaRole).name])
      (entryTargets shape.kind) := by
    split
    · refine ((memberEntries_writes hr shape.kind).block.seq fun _ => writes_line).congr ?_ rfl (by simp)
      simp [hschema]
    · refine (schemaConstant_writes hr shape (listsMembers shape.kind)).congr ?_ rfl ?_
      all_goals cases hk : shape.kind <;> simp [listsMembers, entryTargets, Kind.members]
  exact Yields.congr (Yields.lookup fun _ => Yields.property fun _ => Writes.edit <| hbody.scope.seq fun _ =>
    writes_separate) (by simp) (by split <;> simp [schemaName]) (by simp)

end Schemas

/-! ### All shapes -/

theorem shapeDeclarations_yields {shape : Shape} (hown : shape.isEmitted = true → r.OwnGood shape)
    (hm : shape ∈ r.cx.model.shapes) :
    r.Yields .edits (shapeDeclarations r.cx shape) (shape.isEmitted = true → r.ShapeGood shape)
      (if shape.isEmitted then shapeNames r.cx shape else [])
      (if shape.isEmitted then lookups shape else []) fun _ => True := by
  have hmembers : ∀ m ∈ shape.members, m ∈ r.cx.model.shapes.flatMap Shape.members :=
    fun m h => List.mem_flatMap.2 ⟨shape, hm, h⟩
  cases hemit : shape.isEmitted with
  | false =>
    have hnone : shapeDeclarations r.cx shape = pure () := by
      unfold shapeDeclarations
      unfold Shape.isEmitted at hemit
      cases htrait : shape.isTraitDefinition
      · rw [htrait] at hemit
        cases hk : shape.kind <;> rw [hk] at hemit <;> first | rfl | cases hemit
      · rfl
    rw [hnone]
    exact Yields.congr (yields_pure () trivial) (by simp) rfl (by simp)
  | true =>
    have htrait : shape.isTraitDefinition = false := by
      unfold Shape.isEmitted at hemit
      simpa using (Bool.and_eq_true_iff.1 hemit).1
    have own := hown hemit
    have hschema := schema_yields own.schemas own.constant
    obtain ⟨id, kind, traits⟩ := shape
    unfold shapeDeclarations
    rw [if_neg (by simp [htrait])]
    cases kind with
    | operation op | service s => simp [Shape.isEmitted] at hemit
    | scalar type =>
      exact Yields.congr hschema (by simp [ShapeGood]) (by simp [shapeNames, modelNames]) (by simp [lookups])
    | enumeration values =>
      exact Yields.congr (hschema.bind fun _ _ => enumClass_yields own.models values) (by simp [ShapeGood])
        (by simp [shapeNames, modelNames]) (by simp [lookups])
    | struct members =>
      exact Yields.congr (hschema.bind fun _ _ => structureClass_yields own.models own.schema hmembers)
        (by simp [ShapeGood, Context.home, Kind.element?]) (by simp [shapeNames, modelNames]) (by simp [lookups])
    | union members =>
      obtain ⟨hunion, hunknown⟩ := own.union members rfl
      refine Yields.congr (hschema.bind fun _ _ => unionClasses_yields own.models members own.schema hunion hunknown)
        (by simp [ShapeGood, Context.home, Kind.element?]) (by simp [shapeNames, modelNames]) ?_
      intro id hid
      simp only [↓reduceIte, lookups, List.cons_append, List.mem_cons, List.mem_append] at hid ⊢
      tauto
    | list e | set e | map k e =>
      exact Yields.congr (hschema.bind fun _ _ => collection_yields rfl own.models rfl)
        (by simp [ShapeGood, Context.home, Kind.element?]) (by simp [shapeNames, modelNames]) (by simp [lookups])

section Order

variable (hplaced : r.cx.Placed) (hown : ∀ shape, r.cx.Emits shape → r.OwnGood shape)

include hplaced hown

theorem declarationsAt_yields {id : ShapeId} (hid : id ∈ r.cx.order.all) :
    r.Yields .edits (do
        let shape ← r.cx.shape id
        shapeDeclarations r.cx shape)
      (∀ shape, r.cx.model.get? id = some shape → shape.isEmitted = true → r.ShapeGood shape)
      (namesAt r.cx id) (knownAt r.cx id) fun _ => True := by
  obtain ⟨shape, hm, he, hs⟩ := hplaced id hid
  refine Yields.known (Model.expect_eq_ok.2 hs) ?_
  unfold namesAt knownAt
  rw [hs]
  refine Yields.congr (shapeDeclarations_yields (fun hemit => ?_) hm) (by simp) rfl (List.Subset.refl _)
  subst he
  exact hown shape ⟨hid, hs, hemit⟩

/-- **The models and schemas modules**, whose conditions and names are those of the shapes in the order. -/
theorem typeEdits_yields (hr : r.TypesGrounded) :
    r.Yields .edits (typeEdits r.cx) (∀ shape, r.cx.Emits shape → r.ShapeGood shape) (typeNames r.cx)
      (typeIds r.cx) fun _ => True := by
  have hshell : ∀ id ∈ r.cx.order.recursive,
      r.Yields .edits (schemaShell r.cx id) True [schemaName r.cx id] [id] fun _ => True := by
    intro id hid
    obtain ⟨shape, -, rfl, hs⟩ := hplaced id (List.mem_append_right _ hid)
    exact schemaShell_yields (hr.schemas _ hid) hs
  have hshells : r.Yields .edits (schemaShells r.cx) True (r.cx.order.recursive.map (schemaName r.cx))
      r.cx.order.recursive fun _ => True :=
    Yields.congr (yields_forM hshell) (by simp) (by rw [List.map_eq_flatMap]) (by simp)
  refine Yields.congr ((preamble_yields hr.models).bind fun _ _ => hshells.bind fun _ _ =>
    yields_forM fun id hid => declarationsAt_yields hplaced hown hid) ?_ ?_ ?_
  · simp only [true_and]
    constructor
    · rintro h shape ⟨hid, hs, he⟩
      exact h shape.id hid shape hs he
    · intro h id hid shape hs he
      obtain ⟨shape', -, rfl, hs'⟩ := hplaced id hid
      rw [hs] at hs'
      cases hs'
      exact h shape ⟨hid, hs, he⟩
  · rw [typeNames]
  · simp [typeIds]

end Order

end Package

end ClientGen
