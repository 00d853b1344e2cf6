import ClientGen.Proofs.OwnModules

/-!
# The forms of symbols

What a provider without changes makes of each kind of shape: the module, the helpers, and the symbols that the
type is made of.

* `Standard.sym_plain`, `Standard.sym_variant`: the symbols of shapes that hold no others, and of a union's members.
* `collection_form`: a collection's type is made of its values' type, and it has functions of its own exactly if
  its values need conversion.
-/

namespace ClientGen

namespace Symbol

@[simp] theorem withProperty_name (s : Symbol) (role : String) (helper : Symbol) :
    (s.withProperty role helper).name = s.name := rfl

@[simp] theorem withProperty_ns (s : Symbol) (role : String) (helper : Symbol) :
    (s.withProperty role helper).ns = s.ns := rfl

@[simp] theorem withProperty_file (s : Symbol) (role : String) (helper : Symbol) :
    (s.withProperty role helper).file = s.file := rfl

@[simp] theorem withProperty_references (s : Symbol) (role : String) (helper : Symbol) :
    (s.withProperty role helper).references = s.references := rfl

@[simp] theorem property?_withProperty (s : Symbol) (role role' : String) (helper : Symbol) :
    (s.withProperty role' helper).property? role = if role = role' then some helper else s.property? role := by
  unfold property? withProperty
  rw [Dictionary.get?_insert]
  simp only [Std.LawfulEqOrd.compare_eq_iff_eq]

theorem mem_declarations_self {s : Symbol} (h : s.file.isSome = true) : (s.ns, s.name) ∈ s.declarations := by
  unfold declarations
  exact List.mem_map.2 ⟨s, List.mem_filter.2 ⟨by simp, h⟩, rfl⟩

theorem mem_declarations_property {s helper : Symbol} {role : String} (h : s.property? role = some helper)
    (hf : helper.file.isSome = true) : (helper.ns, helper.name) ∈ s.declarations := by
  unfold property? Dictionary.get? at h
  obtain ⟨e, he, rfl⟩ := Option.map_eq_some_iff.1 h
  unfold declarations
  refine List.mem_map.2 ⟨e.2, List.mem_filter.2 ⟨?_, hf⟩, rfl⟩
  exact List.mem_cons_of_mem _ (List.mem_map.2 ⟨e, List.mem_of_find?_eq_some he, rfl⟩)

end Symbol

open Naming Package

theorem valueClass_name (package : String) (id : ShapeId) : (valueClass package id).name = className id.name := by
  simp only [valueClass, modelClass, declared, Symbol.withProperty_name]

theorem unionType_name (package : String) (id : ShapeId) : (unionType package id).name = className id.name := by
  simp only [unionType, modelClass, declared, Symbol.withProperty_name]

/-- Members are called after the shapes that hold them. -/
def Model.NamesMembers (m : Model) : Prop :=
  ∀ shape ∈ m.shapes, ∀ member ∈ shape.members, member.id = shape.id.withMember member.name

/-- **A run on a model as documents give it, without changes to symbols.** -/
structure Context.Standard (cx : Context) : Prop where
  provider : cx.provider = { package := cx.package }
  package : '.' ∉ cx.package.toList
  placed : cx.Placed
  members : cx.model.NamesMembers
  service : cx.model.get? cx.service.id = some cx.service
  serviceKind : ∃ s, cx.service.kind = .service s

namespace Context.Standard

variable {cx : Context} (hcx : cx.Standard) {id : ShapeId} {shape : Shape}

include hcx

theorem sym_plain {kind : Kind} {s : Symbol} (hid : id.member = none) (hs : cx.model.get? id = some shape)
    (hk : shape.kind = kind) (he : kind.element? = none)
    (h : Provider.shapeSymbol { package := cx.package } cx.model id default kind = .ok s) : cx.sym id = s := by
  subst hk
  refine Context.sym_eq ?_
  rw [hcx.provider]
  exact Provider.Denotes.plain (p := { package := cx.package }) hid hs he h

theorem sym_variant {name : String} {members : List Member} {member : Member} (hid : id.member = some name)
    (hs : cx.model.get? id = some shape) (hk : shape.kind = .union members)
    (hm : shape.member? name = some member) : cx.sym id = variant cx.package shape.id name := by
  refine Context.sym_eq ?_
  rw [hcx.provider]
  exact Provider.Denotes.variant (p := { package := cx.package }) hid hs hk hm

end Context.Standard

theorem Model.shape_id {m : Model} {id : ShapeId} {shape : Shape} (hs : m.get? id = some shape)
    (hid : id.member = none) : shape.id = id := by
  rw [(Model.get?_id hs).1]
  exact congrArg (ShapeId.mk id.ns id.name) hid.symm

/-- Of the shapes that hold no values of another one, unions alone have a helper besides the schema that reads or
writes values. -/
theorem shapeSymbol_helper {p : Provider} {m : Model} {id : ShapeId} {kind : Kind} {s : Symbol}
    (he : kind.element? = none) (h : p.shapeSymbol m id default kind = .ok s) :
    s.property? Symbol.serializerRole = none ∧ (s.property? Symbol.deserializerRole = none ∨
      ∃ members, kind = .union members ∧ s = unionType p.package id) := by
  have hclass : ∀ role, role ≠ Symbol.schemaRole → (valueClass p.package id).property? role = none := by
    intro role hrole
    simp only [valueClass, Symbol.property?_withProperty, if_neg hrole]
    rfl
  cases kind with
  | struct members | enumeration values =>
    cases h
    exact ⟨hclass _ (by decide), .inl (hclass _ (by decide))⟩
  | union members =>
    cases h
    refine ⟨?_, .inr ⟨members, rfl, rfl⟩⟩
    simp only [unionType, Symbol.property?_withProperty]
    rfl
  | scalar type =>
    cases h
    have hnone : ∀ role, (scalar type).property? role = none := by
      intro role
      cases type <;> rfl
    constructor
    · rw [Symbol.property?_withProperty, if_neg (by decide), hnone]
    · left
      rw [Symbol.property?_withProperty, if_neg (by decide), hnone]
  | operation op | service service =>
    cases h
    exact ⟨rfl, .inl rfl⟩
  | list e | set e | map k e => cases he

/-! ### Collections -/

/-- Do values of the target need conversion? -/
def Model.converts (m : Model) (target : ShapeId) : Bool :=
  match needsConversion m target with
  | .ok b => b
  | .error _ => false

/-- The function of a collection with the given role. -/
def collectionFunction? (package : String) (id : ShapeId) (role : String) : Option Symbol :=
  if role = Symbol.serializerRole then some (modelClass package ("_serialize_" ++ Text.snakeCase id.name))
  else if role = Symbol.deserializerRole then some (modelClass package ("_deserialize_" ++ Text.snakeCase id.name))
  else none

/-- What is known of a collection's type, given the type of its values. -/
structure CollectionForm (package : String) (m : Model) (id target : ShapeId) (element s : Symbol) : Prop where
  ns : s.ns = ""
  file : s.file = none
  references : s.references = [element]
  /-- It has a schema, and functions if its values need conversion. -/
  property? : ∀ role, s.property? role =
    if role = Symbol.schemaRole then some (schema package id)
    else if m.converts target then collectionFunction? package id role else none

namespace CollectionForm

variable {package : String} {m : Model} {id target : ShapeId} {element s : Symbol}
  (h : CollectionForm package m id target element s)

include h

theorem function? {role : String} (hr : role ≠ Symbol.schemaRole) :
    s.property? role = if m.converts target then collectionFunction? package id role else none := by
  rw [h.property?, if_neg hr]

theorem serializer? : s.property? Symbol.serializerRole =
    if m.converts target then some (modelClass package ("_serialize_" ++ Text.snakeCase id.name)) else none :=
  h.function? (by decide)

theorem deserializer? : s.property? Symbol.deserializerRole =
    if m.converts target then some (modelClass package ("_deserialize_" ++ Text.snakeCase id.name)) else none :=
  h.function? (by decide)

end CollectionForm

/-- A collection has functions exactly if its values need conversion. -/
theorem Context.converted_eq {cx : Context} {package : String} {id target : ShapeId} {element : Symbol}
    (h : CollectionForm package cx.model id target element (cx.sym id)) :
    cx.converted id = cx.model.converts target := by
  unfold converted
  rw [h.serializer?, h.deserializer?]
  cases cx.model.converts target <;> rfl

theorem collection_form {package name : String} {m : Model} {id target : ShapeId} {element s : Symbol}
    (h : Naming.collection package m id name element target = .ok s) :
    CollectionForm package m id target element s := by
  unfold Naming.collection at h
  obtain ⟨b, hb, h⟩ := bind_ok_iff.1 h
  have hconverts : m.converts target = b := by
    unfold Model.converts
    rw [hb]
  have hnone : ∀ role, ((Symbol.builtin name).withReference element).property? role = none := fun _ => rfl
  cases b with
  | false =>
    cases h
    refine ⟨rfl, rfl, rfl, fun role => ?_⟩
    simp [hconverts, hnone]
  | true =>
    cases h
    refine ⟨rfl, rfl, rfl, fun role => ?_⟩
    by_cases hschema : role = Symbol.schemaRole
    · subst hschema
      simp [Symbol.schemaRole, Symbol.serializerRole, Symbol.deserializerRole]
    · by_cases hwrite : role = Symbol.serializerRole
      · subst hwrite
        simp [hconverts, collectionFunction?, Symbol.schemaRole, Symbol.serializerRole, Symbol.deserializerRole]
      · simp [hnone, hconverts, hschema, hwrite, collectionFunction?]

theorem shapeSymbol_collection {p : Provider} {m : Model} {id : ShapeId} {kind : Kind} {e : Member}
    {element s : Symbol} (he : kind.element? = some e) (h : p.shapeSymbol m id element kind = .ok s) :
    CollectionForm p.package m id e.target element s := by
  cases kind <;> cases he <;> exact collection_form h

/-- Has the shape a schema? Operations and services have none. -/
def Shape.hasSchema (s : Shape) : Bool :=
  match s.kind with
  | .operation _ | .service _ => false
  | _ => true

/-- **The schema of a shape depends on its id only.** -/
theorem Context.Standard.schema? {cx : Context} (hcx : cx.Standard) {id : ShapeId} {shape : Shape} {s : Symbol}
    (hden : cx.provider.Denotes cx.model id s) (hid : id.member = none) (hs : cx.model.get? id = some shape) :
    s.property? Symbol.schemaRole = if shape.hasSchema then some (schema cx.package id) else none := by
  rw [hcx.provider] at hden
  cases hden with
  | standsFor hst =>
    rw [Provider.standsFor?_of_no_member hid] at hst
    cases hst
  | variant hmember =>
    rw [hid] at hmember
    cases hmember
  | @plain _ _ s _ hs' he hk =>
    rw [hs] at hs'
    cases hs'
    cases hkind : shape.kind <;> rw [hkind] at hk he
    case list | set | map => cases he
    case operation | service =>
      cases hk
      simp only [Shape.hasSchema, hkind]
      rfl
    all_goals
      cases hk
      simp [Shape.hasSchema, hkind, valueClass, unionType, Symbol.schemaRole, Symbol.deserializerRole,
        Symbol.unknownRole]
  | @collection _ _ e element s _ hs' he _ hk =>
    rw [hs] at hs'
    cases hs'
    have hschema : shape.hasSchema = true := by cases hkind : shape.kind <;> simp_all [Shape.hasSchema, Kind.element?]
    have hform := shapeSymbol_collection he hk
    rw [hschema, if_pos rfl]
    exact (hform.property? _).trans (if_pos rfl)

end ClientGen
