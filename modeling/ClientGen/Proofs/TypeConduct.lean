import ClientGen.Proofs.PlanConduct

/-!
# How the plans of the models and schemas modules conduct themselves

* `typeEdits_conducts`: with these, all edits of the two modules are innocent and of the files of their modules.
-/

namespace ClientGen.Package

open Plan Survey

variable {v : Survey}

/-! ### The start of the models module -/

instance (service : Shape) : v.Honest (serviceErrorClass service) := by
  unfold serviceErrorClass
  infer_instance

instance : v.Honest apiErrorClass := by
  unfold apiErrorClass
  infer_instance

instance : v.Honest unknownApiErrorClass := by
  unfold unknownApiErrorClass
  infer_instance

instance : v.Honest timestampConstant := by
  unfold timestampConstant
  infer_instance

theorem preamble_conducts : v.Conducts (preamble v.cx) v.Sends fun _ => True :=
  conducts_edit (Symbol.housed_modelClass _)

/-! ### Values -/

instance (cx : Context) (target : ShapeId) : CollisionFree (cx.shape target) := by
  unfold Context.shape
  infer_instance

instance (target : ShapeId) (serializer schema value : String) [v.Asks target] :
    v.Honest (writeValue v.cx target serializer schema value) := by
  refine Honest.bind fun shape => ?_
  split
  · infer_instance
  · infer_instance
  · infer_instance
  · infer_instance
  · refine Honest.bind fun s => ?_
    split <;> infer_instance
  · refine Honest.bind fun s => ?_
    split <;> infer_instance
  · refine Honest.bind fun s => ?_
    split <;> infer_instance
  · exact honest_fail rfl
  · exact honest_fail rfl

instance (target : ShapeId) (deserializer schema : String) [v.Asks target] :
    v.Honest (readValue v.cx target deserializer schema) := by
  refine Honest.bind fun shape => ?_
  split
  · infer_instance
  · infer_instance
  · infer_instance
  · infer_instance
  · refine Honest.bind fun s => ?_
    split <;> infer_instance
  · refine Honest.bind fun s => ?_
    split <;> infer_instance
  · refine Honest.bind fun s => ?_
    split <;> infer_instance
  · exact honest_fail rfl
  · exact honest_fail rfl

/-! ### Fields -/

instance (here : String) (schema : Symbol) (name : String) : v.Honest (memberSchema here schema name) := by
  unfold memberSchema
  infer_instance

theorem typeHint_conducts (here : String) (target : ShapeId) (optional : Bool) [h : v.Asks target] :
    v.Conducts (typeHint v.cx here target optional) (fun step => v.Innocent [step]) fun _ =>
      ∃ s, v.cx.provider.Denotes v.cx.model target s := by
  refine (conducts_symbol h.asked).bind fun s hs => ?_
  have hrest : v.Honest (reference here s) := inferInstance
  exact hrest.conducts.bind fun text _ => conducts_pure _ ⟨s, hs⟩

instance (here : String) (target : ShapeId) (optional : Bool) [v.Asks target] :
    v.Honest (typeHint v.cx here target optional) :=
  ⟨(typeHint_conducts here target optional).weaken fun _ _ => trivial⟩

instance (here factory : String) : v.Honest (factoryDefault here factory) := by
  unfold factoryDefault
  infer_instance

instance (here : String) (j : Json) : v.Honest (timestampDefault v.cx here j) := by
  unfold timestampDefault
  split
  · infer_instance
  · split
    · infer_instance
    · infer_instance
    · infer_instance
    · exact honest_fail rfl

/-- The default of an enumeration asks for the enumeration, which is the target itself. -/
theorem defaultExpression_honest (here : String) {target : ShapeId} (j : Json) [h : v.Asks target]
    (hden : ∃ s, v.cx.provider.Denotes v.cx.model target s) : v.Honest (defaultExpression v.cx here target j) := by
  obtain ⟨s, hden⟩ := hden
  refine Honest.after (conducts_except _) fun shape hshape => ?_
  split
  · infer_instance
  · infer_instance
  · infer_instance
  · rename_i values text hk
    have hid : shape.id = target := hden.id_eq (Model.expect_eq_ok.1 hshape) (by simp [Shape.members, hk, Kind.members])
    have : v.Asks shape.id := by rw [hid]; exact h
    infer_instance
  · infer_instance
  · infer_instance
  · infer_instance
  · infer_instance
  · infer_instance

instance (name hint : String) (default : Option String) : v.Honest (fieldLine name hint default) := by
  unfold fieldLine
  split <;> infer_instance

instance (here : String) (m : Member) [v.Asks m.target] : v.Honest (memberField v.cx here m) := by
  refine Honest.after (typeHint_conducts here m.target _) fun hint hden => ?_
  have hdefault : v.Honest (memberDefault v.cx here m) := by
    unfold memberDefault
    split
    · infer_instance
    · rename_i j hj
      have := defaultExpression_honest here j hden
      infer_instance
  infer_instance

theorem forM_zipIdx_honest {members : List Member} {f : Nat → Member → Plan Step Unit}
    (h : ∀ index, ∀ m ∈ members, v.Honest (f index m)) : v.Honest (members.zipIdx.forM fun (m, index) => f index m) :=
  .forM fun b hb => h b.2 b.1 (List.fst_mem_of_mem_zipIdx hb)

/-! ### Structures and enumerations -/

section Structures

variable {members : List Member} (h : ∀ m ∈ members, v.Asks m.target)

instance (s : Shape) : v.Honest (errorFields s) := by
  unfold errorFields
  infer_instance

instance (here : String) (schema : Symbol) (m : Member) [v.Asks m.target] : v.Honest (writeMember v.cx here schema m) := by
  unfold writeMember
  infer_instance

instance : v.Honest unexpectedMember := by
  unfold unexpectedMember
  infer_instance

instance (here : String) (schema : Symbol) (index : Nat) (m : Member) [v.Asks m.target] :
    v.Honest (readMember v.cx here schema index m) := by
  unfold readMember
  infer_instance

include h

theorem memberDispatch_honest (here : String) (schema : Symbol) : v.Honest (memberDispatch v.cx here schema members) := by
  have hloop : v.Honest (members.zipIdx.forM fun (m, index) => readMember v.cx here schema index m) := by
    refine forM_zipIdx_honest fun index m hm => ?_
    have := h m hm
    infer_instance
  unfold memberDispatch
  infer_instance

theorem structureBody_honest (here : String) (shape : Shape) (schema : Symbol) :
    v.Honest (structureBody v.cx here shape members schema) := by
  have hfields : v.Honest ((fieldOrder members).forM (memberField v.cx here)) := by
    refine .forM fun m hm => ?_
    have hmem : m ∈ members := by
      rcases List.mem_append.1 hm with hm | hm <;> exact List.mem_of_mem_filter hm
    have := h m hmem
    infer_instance
  have hwrite : v.Honest (members.forM (writeMember v.cx here schema)) := by
    refine .forM fun m hm => ?_
    have := h m hm
    infer_instance
  have hread := memberDispatch_honest h here schema
  unfold structureBody
  infer_instance

theorem structureClass_conducts (hp : v.cx.provider = { package := v.cx.package }) (shape : Shape) [v.Asks shape.id] :
    v.Conducts (structureClass v.cx shape members) v.Sends fun _ => True := by
  refine (conducts_housed hp).bind fun symbol hsymbol => Conducts.property hsymbol fun schema _ => ?_
  have hbody := structureBody_honest h symbol.ns shape schema
  exact conducts_edit hsymbol.self

end Structures

instance (e : EnumValue) : v.Honest (enumConstant e) := by
  unfold enumConstant
  infer_instance

theorem enumClass_conducts (hp : v.cx.provider = { package := v.cx.package }) (shape : Shape) (values : List EnumValue)
    [v.Asks shape.id] : v.Conducts (enumClass v.cx shape values) v.Sends fun _ => True :=
  (conducts_housed hp).bind fun _ hsymbol => conducts_edit hsymbol.self

/-! ### Unions -/

section Unions

variable {members : List Member} (h : ∀ m ∈ members, v.Asks m.target) (hids : ∀ m ∈ members, v.Asks m.id)

instance (here : String) (m : Member) (variant schema : Symbol) [v.Asks m.target] :
    v.Honest (variantClass v.cx here m variant schema) := by
  unfold variantClass
  infer_instance

instance (message : String) : v.Honest (raiseError message) := by
  unfold raiseError
  infer_instance

instance (unknown : Symbol) : v.Honest (unknownClass unknown) := by
  unfold unknownClass
  infer_instance

instance (index : Nat) (m : Member) [v.Asks m.id] : v.Honest (readVariant v.cx index m) := by
  unfold readVariant
  infer_instance

instance (union : Symbol) (classes : List Symbol) : v.Honest (unionAlias union classes) := by
  unfold unionAlias
  infer_instance

include hids

theorem unionReader_honest (union reader schema : Symbol) : v.Honest (unionReader v.cx members union reader schema) := by
  have hloop : v.Honest (members.zipIdx.forM fun (m, index) => readVariant v.cx index m) := by
    refine forM_zipIdx_honest fun index m hm => ?_
    have := hids m hm
    infer_instance
  unfold unionReader
  infer_instance

include h

theorem variantClasses_honest (here : String) (schema : Symbol) : v.Honest (variantClasses v.cx here schema members) := by
  induction members with
  | nil =>
    unfold variantClasses
    infer_instance
  | cons m rest ih =>
    have htarget := h m (by simp)
    have hid := hids m (by simp)
    have hrest := ih (fun m hm => h m (List.mem_cons_of_mem _ hm)) fun m hm => hids m (List.mem_cons_of_mem _ hm)
    unfold variantClasses
    infer_instance

theorem unionClasses_conducts (hp : v.cx.provider = { package := v.cx.package }) (shape : Shape) [v.Asks shape.id] :
    v.Conducts (unionClasses v.cx shape members) v.Sends fun _ => True := by
  refine (conducts_housed hp).bind fun symbol hsymbol => Conducts.property hsymbol fun schema _ =>
    Conducts.property hsymbol fun unknown _ => Conducts.property hsymbol fun reader _ => ?_
  have hvariants := variantClasses_honest h hids symbol.ns schema
  have hreader := unionReader_honest hids symbol reader schema
  exact conducts_edit hsymbol.self

end Unions

/-! ### Collections -/

section Collections

variable (function : Symbol) (hint : String) (e : Member) [v.Asks e.target]

instance : v.Honest (listWriter v.cx function hint e) := by
  unfold listWriter
  infer_instance

instance (statement : Plan Step Unit) [v.Honest statement] : v.Honest (readUnlessNull statement) := by
  unfold readUnlessNull
  infer_instance

instance (empty add : String) : v.Honest (listReader v.cx function hint e empty add) := by
  unfold listReader
  infer_instance

instance : v.Honest (mapWriter v.cx function hint e) := by
  unfold mapWriter
  infer_instance

instance : v.Honest (mapReader v.cx function hint e) := by
  unfold mapReader
  infer_instance

end Collections

theorem collectionFunctions_honest {kind : Kind} (h : ∀ e, kind.element? = some e → v.Asks e.target)
    (writer reader : Symbol) (hint : String) : v.Honest (collectionFunctions v.cx kind writer reader hint) := by
  unfold collectionFunctions
  split
  · have := h _ rfl
    infer_instance
  · have := h _ rfl
    infer_instance
  · have := h _ rfl
    infer_instance
  · infer_instance

theorem collection_conducts (hp : v.cx.provider = { package := v.cx.package }) (shape : Shape) [v.Asks shape.id]
    (h : ∀ e, shape.kind.element? = some e → v.Asks e.target) :
    v.Conducts (collection v.cx shape) v.Sends fun _ => True := by
  refine (conducts_housed hp).bind fun symbol hsymbol => ?_
  split
  · rename_i writer reader hwriter _
    have hfunctions := collectionFunctions_honest h writer reader
    exact conducts_edit (hsymbol.helper _ _ hwriter)
  · exact conducts_pure () trivial

/-! ### Schemas -/

/-- The targets that a schema asks for. -/
def schemaTargets : Kind → List ShapeId
  | .enumeration _ => [Prelude.unit]
  | kind => kind.members.map Member.target

section Schemas

instance (id : ShapeId) (value : Json) : v.Honest (traitEntry id value) := by
  unfold traitEntry
  infer_instance

instance (opening : String) (t : Traits) : v.Honest (traitList opening t) := by
  unfold traitList
  split
  · infer_instance
  · have hloop : v.Honest ((keptTraits t).forM fun (id, value) => traitEntry id value) := .forM fun _ _ => inferInstance
    infer_instance

instance (m : Member) [v.Asks m.target] : v.Honest (memberEntry v.cx m) := by
  unfold memberEntry
  infer_instance

instance (unit : Symbol) (e : EnumValue) : v.Honest (constantEntry unit e) := by
  unfold constantEntry
  infer_instance

instance (kind : Kind) : v.Honest (shapeTypeEntry kind) := by
  unfold shapeTypeEntry
  split <;> infer_instance

theorem memberEntries_honest {kind : Kind} (h : ∀ target ∈ schemaTargets kind, v.Asks target) :
    v.Honest (memberEntries v.cx kind) := by
  unfold memberEntries
  split
  · have := h Prelude.unit (by simp [schemaTargets])
    infer_instance
  · rename_i hk
    refine .forM fun m hm => ?_
    have htarget : m.target ∈ schemaTargets kind := by
      unfold schemaTargets
      split
      · exact absurd rfl (hk _)
      · exact List.mem_map.2 ⟨m, hm, rfl⟩
    have := h m.target htarget
    infer_instance

theorem schemaConstant_honest (shape : Shape) (withMembers : Bool) [v.Asks shape.id]
    (h : withMembers = true → ∀ target ∈ schemaTargets shape.kind, v.Asks target) :
    v.Honest (schemaConstant v.cx shape withMembers) := by
  have hmembers : v.Honest (onlyIf withMembers (membersEntry v.cx shape.kind)) := by
    cases withMembers with
    | false => exact inferInstanceAs (v.Honest (Plan.pure ()))
    | true =>
      have := memberEntries_honest (h rfl)
      unfold membersEntry
      infer_instance
  unfold schemaConstant
  infer_instance

theorem schemaShell_conducts (hp : v.cx.provider = { package := v.cx.package }) {id : ShapeId}
    (h : ∀ shape, v.cx.model.get? id = some shape → v.Asks id ∧ v.Asks shape.id) :
    v.Conducts (schemaShell v.cx id) v.Sends fun _ => True := by
  refine (conducts_except _).bind fun shape hshape => ?_
  obtain ⟨hid, hshape⟩ := h shape (Model.expect_eq_ok.1 hshape)
  refine (conducts_housed hp).bind fun symbol hsymbol => Conducts.property hsymbol fun schema hschema => ?_
  have hconstant := schemaConstant_honest (v := v) shape false nofun
  exact conducts_edit hschema

theorem schema_conducts (hp : v.cx.provider = { package := v.cx.package }) (shape : Shape) [v.Asks shape.id]
    (h : ∀ target ∈ schemaTargets shape.kind, v.Asks target) :
    v.Conducts (schema v.cx shape) v.Sends fun _ => True := by
  refine (conducts_housed hp).bind fun symbol hsymbol => Conducts.property hsymbol fun schema hschema => ?_
  have hentries := memberEntries_honest h
  have hconstant := schemaConstant_honest shape (listsMembers shape.kind) fun _ => h
  exact conducts_edit hschema

end Schemas

/-! ### All shapes -/

/-- The ids that the declarations of a shape ask for. -/
def askedBy (shape : Shape) : List ShapeId :=
  shape.id :: schemaTargets shape.kind ++ match shape.kind with
    | .union members => members.map Member.id
    | _ => []

/-- What the models and schemas modules ask for may be asked for. -/
structure CoversTypes (v : Survey) : Prop where
  shells : ∀ id ∈ v.cx.order.recursive, ∀ shape, v.cx.model.get? id = some shape → v.Asked id ∧ v.Asked shape.id
  shapes : ∀ id ∈ v.cx.order.all, ∀ shape, v.cx.model.get? id = some shape → shape.isEmitted = true →
    ∀ target ∈ askedBy shape, v.Asked target

theorem target_mem_askedBy {shape : Shape} {m : Member} (h : m ∈ shape.kind.members) : m.target ∈ askedBy shape := by
  refine List.mem_append_left _ (List.mem_cons_of_mem _ ?_)
  cases hk : shape.kind <;> rw [hk] at h
  case enumeration => cases h
  all_goals exact List.mem_map.2 ⟨m, h, rfl⟩

theorem shapeDeclarations_conducts (hp : v.cx.provider = { package := v.cx.package }) {shape : Shape}
    (h : shape.isEmitted = true → ∀ target ∈ askedBy shape, v.Asked target) :
    v.Conducts (shapeDeclarations v.cx shape) v.Sends fun _ => True := by
  unfold shapeDeclarations
  split
  · exact conducts_pure () trivial
  · rename_i htrait
    have hasks : shape.isEmitted = true → v.Asks shape.id ∧ (∀ target ∈ schemaTargets shape.kind, v.Asks target) ∧
        ∀ m ∈ shape.kind.members, v.Asks m.target :=
      fun he => ⟨⟨h he _ (by simp [askedBy])⟩, fun target ht => ⟨h he _ (by simp [askedBy, ht])⟩,
        fun m hm => ⟨h he _ (target_mem_askedBy hm)⟩⟩
    have hcollection : shape.isEmitted = true → (∀ e, shape.kind.element? = some e → e ∈ shape.kind.members) →
        v.Conducts (schema v.cx shape >>= fun _ => collection v.cx shape) v.Sends fun _ => True := by
      intro he helement
      obtain ⟨hid, htargets, hmembers⟩ := hasks he
      exact (schema_conducts hp shape htargets).bind fun _ _ =>
        collection_conducts hp shape fun e hk => hmembers e (helement e hk)
    cases hk : shape.kind with
    | struct members =>
      obtain ⟨hid, htargets, hmembers⟩ := hasks (by simp [Shape.isEmitted, htrait, hk])
      refine (schema_conducts hp shape htargets).bind fun _ _ => ?_
      exact structureClass_conducts (fun m hm => hmembers m (by simpa [hk, Kind.members] using hm)) hp shape
    | union members =>
      have he : shape.isEmitted = true := by simp [Shape.isEmitted, htrait, hk]
      obtain ⟨hid, htargets, hmembers⟩ := hasks he
      refine (schema_conducts hp shape htargets).bind fun _ _ => ?_
      refine unionClasses_conducts (fun m hm => hmembers m (by simpa [hk, Kind.members] using hm)) ?_ hp shape
      intro m hm
      refine ⟨h he _ ?_⟩
      simp only [askedBy, hk]
      exact List.mem_append_right _ (List.mem_map.2 ⟨m, hm, rfl⟩)
    | list e | set e | map k e =>
      exact hcollection (by simp [Shape.isEmitted, htrait, hk]) (by simp [hk, Kind.element?, Kind.members])
    | enumeration values =>
      obtain ⟨hid, htargets, -⟩ := hasks (by simp [Shape.isEmitted, htrait, hk])
      exact (schema_conducts hp shape htargets).bind fun _ _ => enumClass_conducts hp shape values
    | scalar type =>
      obtain ⟨hid, htargets, -⟩ := hasks (by simp [Shape.isEmitted, htrait, hk])
      exact schema_conducts hp shape htargets
    | operation op | service service => exact conducts_pure () trivial

/-- **The models and schemas modules.** -/
theorem typeEdits_conducts (hp : v.cx.provider = { package := v.cx.package }) (h : CoversTypes v) :
    v.Conducts (typeEdits v.cx) v.Sends fun _ => True := by
  refine preamble_conducts.bind fun _ _ => Conducts.bind (Q := fun _ => True) ?_ fun _ _ => ?_
  · refine conducts_forM fun id hid => schemaShell_conducts hp fun shape hs => ?_
    obtain ⟨hid, hshape⟩ := h.shells id hid shape hs
    exact ⟨⟨hid⟩, ⟨hshape⟩⟩
  · refine conducts_forM fun id hid => (conducts_except _).bind fun shape hshape => ?_
    exact shapeDeclarations_conducts hp (h.shapes id hid shape (Model.expect_eq_ok.1 hshape))

end ClientGen.Package
