import ClientGen.Model.Assembly
import ClientGen.Proofs.DocumentKeys
import ClientGen.Proofs.IdText
import ClientGen.Proofs.ModelHistory
import Mathlib

/-!
# Shapes of loaded models

What a document gives as ids is read from text. Only the names of members are taken as they are. This is
kept up from the entries of a document to the shapes of the finished model.

* `Assembly.readDefinition_loaded`: one entry.
* `Assembly.push_loaded`, `Assembly.finish_loaded`: whole documents, and the operations that services get from
  their resources.
* `Model.ofDocument_addressable`: which shapes and members of a loaded model their ids lead to, and which ids
  can be read back from their texts.
-/

namespace ClientGen

theorem ShapeId.spelled_of_read {s : String} {id : ShapeId} (h : ShapeId.read s = .ok id) : id.Spelled := by
  unfold ShapeId.read at h
  split at h
  · next hparse =>
    cases h
    exact (parse?_eq_some_iff.1 hparse).1
  · cases h

/-- The members are those of the id and have different names, and all references have a text form. -/
structure Kind.Loaded (kind : Kind) (container : ShapeId) : Prop where
  memberIds : ∀ m ∈ kind.members, m.id = container.withMember m.name
  memberNames : (kind.members.map Member.name).Nodup
  references : ∀ id ∈ kind.references, id.Spelled

structure Shape.Loaded (s : Shape) : Prop where
  id : s.id.Spelled
  kind : s.kind.Loaded s.id

theorem Kind.target_mem_references {kind : Kind} {m : Member} (h : m ∈ kind.members) :
    m.target ∈ kind.references := by
  cases kind with
  | operation op | service s | enumeration values | scalar t => cases h
  | struct ms | union ms | list m | set m | map k v => exact List.mem_map_of_mem h

theorem Shape.Loaded.member? {s : Shape} (h : s.Loaded) {m : Member} (hm : m ∈ s.members) :
    s.member? m.name = some m := by
  cases hfound : s.member? m.name with
  | none => simpa using List.find?_eq_none.1 hfound m hm
  | some m' =>
    have hname : m'.name = m.name := by simpa using List.find?_some hfound
    have hinj := List.inj_on_of_nodup_map h.kind.memberNames
    rw [hinj (List.mem_of_find?_eq_some hfound) hm hname]

namespace Assembly

variable {name : String} {entry : MemberEntry} {m : Member} {members : List Member} {kind : Kind}

/-! ### Entries -/

theorem readIds_spelled {texts : List String} {ids : List ShapeId} (h : readIds texts = .ok ids) :
    ∀ id ∈ ids, id.Spelled := by
  intro id hid
  obtain ⟨s, -, hs⟩ := exists_of_mem_mapM h hid
  exact ShapeId.spelled_of_read hs

theorem readId?_spelled {s : Option String} {found : Option ShapeId} (h : readId? s = .ok found) :
    ∀ id ∈ found.toList, id.Spelled := by
  intro id hid
  cases s with
  | none =>
    cases h
    cases hid
  | some s =>
    obtain ⟨id', hread, h⟩ := bind_ok_iff.1 h
    cases h
    obtain rfl := List.mem_singleton.1 hid
    exact ShapeId.spelled_of_read hread

variable {container : ShapeId}

theorem readMember_ok (h : readMember container name entry = .ok m) :
    m.id = container.withMember name ∧ m.target.Spelled := by
  obtain ⟨target, htarget, h⟩ := bind_ok_iff.1 h
  obtain ⟨traits, -, h⟩ := bind_ok_iff.1 h
  cases h
  exact ⟨rfl, ShapeId.spelled_of_read htarget⟩

theorem name_of_id (h : m.id = container.withMember name) : m.name = name := by
  unfold Member.name
  rw [h]
  rfl

theorem readMemberAt_ok {value : Json} (h : readMemberAt container name value = .ok m) :
    m.id = container.withMember name ∧ m.target.Spelled := by
  unfold readMemberAt at h
  split at h
  · exact readMember_ok h
  · cases h

/-- The members of an object of members are those of the shape, and their targets have a text form. -/
theorem readMembers_ok {entries : Option Json.Object} (h : readMembers container entries = .ok members)
    (hm : m ∈ members) : m.id = container.withMember m.name ∧ m.target.Spelled := by
  obtain ⟨⟨name, value⟩, -, hread⟩ := exists_of_mem_mapM h hm
  obtain ⟨hid, htarget⟩ := readMemberAt_ok hread
  rw [name_of_id hid]
  exact ⟨hid, htarget⟩

theorem readMembers_names {entries : Option Json.Object} (h : readMembers container entries = .ok members) :
    members.map Member.name = (entries.getD []).map Prod.fst :=
  map_eq_of_mapM (fun _ _ hread => name_of_id (readMemberAt_ok hread).1) h

theorem readMembers_nodup {entry : ShapeEntry} (hentry : entry.Keyed)
    (h : readMembers container entry.members = .ok members) : (members.map Member.name).Nodup := by
  rw [readMembers_names h]
  cases hmembers : entry.members with
  | none => exact List.nodup_nil
  | some o => exact hentry o hmembers

theorem loaded_of_members (hreferences : kind.references = kind.members.map (·.target))
    (hmembers : ∀ m ∈ kind.members, m.id = container.withMember m.name ∧ m.target.Spelled)
    (hnames : (kind.members.map Member.name).Nodup) : kind.Loaded container where
  memberIds m hm := (hmembers m hm).1
  memberNames := hnames
  references id hid := by
    rw [hreferences] at hid
    obtain ⟨m, hm, rfl⟩ := List.mem_map.1 hid
    exact (hmembers m hm).2

theorem readMember_loaded (h : readMember container name entry = .ok m) :
    m.id = container.withMember m.name ∧ m.target.Spelled := by
  obtain ⟨hid, htarget⟩ := readMember_ok h
  rw [name_of_id hid]
  exact ⟨hid, htarget⟩

theorem loaded_of_member (hreferences : kind.references = kind.members.map (·.target)) (hmembers : kind.members = [m])
    (h : readMember container name entry = .ok m) : kind.Loaded container := by
  refine loaded_of_members hreferences (fun m' hm' => ?_) ?_
  · rw [hmembers] at hm'
    obtain rfl := List.mem_singleton.1 hm'
    exact readMember_loaded h
  · rw [hmembers]
    exact List.nodup_singleton _

theorem loaded_of_no_members (hmembers : kind.members = []) (h : ∀ id ∈ kind.references, id.Spelled) :
    kind.Loaded container where
  memberIds m hm := by
    rw [hmembers] at hm
    cases hm
  memberNames := by
    rw [hmembers]
    exact List.nodup_nil
  references := h

theorem readKind_loaded {entry : ShapeEntry} {traits : Traits} (hentry : entry.Keyed)
    (h : readKind container entry traits = .ok kind) : kind.Loaded container := by
  have hno : ∀ id ∈ ([] : List ShapeId), id.Spelled := fun id hid => absurd hid List.not_mem_nil
  unfold readKind at h
  split at h
  · -- a structure
    obtain ⟨members, hmembers, h⟩ := bind_ok_iff.1 h
    cases h
    exact loaded_of_members rfl (fun m => readMembers_ok hmembers) (readMembers_nodup hentry hmembers)
  · -- a union
    obtain ⟨members, hmembers, h⟩ := bind_ok_iff.1 h
    cases h
    exact loaded_of_members rfl (fun m => readMembers_ok hmembers) (readMembers_nodup hentry hmembers)
  · -- a list
    obtain ⟨e, -, h⟩ := bind_ok_iff.1 h
    obtain ⟨m, hm, h⟩ := bind_ok_iff.1 h
    cases h
    exact loaded_of_member rfl rfl hm
  · -- a set
    obtain ⟨e, -, h⟩ := bind_ok_iff.1 h
    obtain ⟨m, hm, h⟩ := bind_ok_iff.1 h
    cases h
    exact loaded_of_member rfl rfl hm
  · -- a map
    obtain ⟨ek, -, h⟩ := bind_ok_iff.1 h
    obtain ⟨ev, -, h⟩ := bind_ok_iff.1 h
    obtain ⟨k, hk, h⟩ := bind_ok_iff.1 h
    obtain ⟨v, hv, h⟩ := bind_ok_iff.1 h
    cases h
    refine loaded_of_members rfl (fun m hm => ?_) ?_
    · rcases List.mem_pair.1 hm with rfl | rfl
      · exact readMember_loaded hk
      · exact readMember_loaded hv
    · have hkey : k.name = "key" := name_of_id (readMember_ok hk).1
      have hvalue : v.name = "value" := name_of_id (readMember_ok hv).1
      simp [Kind.members, hkey, hvalue]
  · -- an enumeration, with its members as constants
    obtain ⟨members, -, h⟩ := bind_ok_iff.1 h
    obtain ⟨values, -, h⟩ := bind_ok_iff.1 h
    cases h
    exact loaded_of_no_members rfl hno
  · -- an operation
    obtain ⟨input, hinput, h⟩ := bind_ok_iff.1 h
    obtain ⟨output, houtput, h⟩ := bind_ok_iff.1 h
    obtain ⟨errors, herrors, h⟩ := bind_ok_iff.1 h
    cases h
    refine loaded_of_no_members rfl fun id hid => ?_
    rcases List.mem_append.1 hid with hid | hid
    · rcases List.mem_append.1 hid with hid | hid
      · exact readId?_spelled hinput id hid
      · exact readId?_spelled houtput id hid
    · exact readIds_spelled herrors id hid
  · -- a simple type or an enumeration by a trait
    split at h
    · obtain ⟨values, -, h⟩ := bind_ok_iff.1 h
      cases h
      exact loaded_of_no_members rfl hno
    · cases h
      exact loaded_of_no_members rfl hno
    · cases h

end Assembly

/-- What is defined is a loaded shape, or a resource whose operations have a text form. -/
def Definition.Loaded : Definition → Prop
  | .shape s => s.Loaded
  | .service s _ => s.Loaded
  | .resource _ r => ∀ id ∈ r.operations, id.Spelled

namespace Assembly

variable {id : ShapeId} {d : Definition} {m m' : Model}

/-- **What an entry defines under a key that is an id.** -/
theorem readDefinition_loaded {entry : ShapeEntry} (hid : id.Spelled) (hentry : entry.Keyed)
    (h : readDefinition id entry = .ok d) : d.Loaded := by
  unfold readDefinition at h
  obtain ⟨traits, -, h⟩ := bind_ok_iff.1 h
  split at h
  · -- a service
    obtain ⟨held, -, h⟩ := bind_ok_iff.1 h
    obtain ⟨operations, hoperations, h⟩ := bind_ok_iff.1 h
    obtain ⟨errors, herrors, h⟩ := bind_ok_iff.1 h
    cases h
    refine ⟨hid, loaded_of_no_members rfl fun r hr => ?_⟩
    rcases List.mem_append.1 hr with hr | hr
    · exact readIds_spelled hoperations r hr
    · exact readIds_spelled herrors r hr
  · -- a resource
    obtain ⟨bound, hbound, h⟩ := bind_ok_iff.1 h
    obtain ⟨ofCollection, hofCollection, h⟩ := bind_ok_iff.1 h
    obtain ⟨lifecycle, hlifecycle, h⟩ := bind_ok_iff.1 h
    obtain ⟨resources, -, h⟩ := bind_ok_iff.1 h
    cases h
    intro r hr
    rcases List.mem_append.1 hr with hr | hr
    · rcases List.mem_append.1 hr with hr | hr
      · exact readIds_spelled hbound r hr
      · exact readIds_spelled hofCollection r hr
    · exact readIds_spelled hlifecycle r hr
  · -- any other shape
    obtain ⟨kind, hkind, h⟩ := bind_ok_iff.1 h
    cases h
    exact ⟨hid, readKind_loaded hentry hkind⟩

theorem define_loaded {key : String} {entry : ShapeEntry} (hentry : entry.Keyed) (h : define key entry = .ok d) :
    d.Loaded := by
  obtain ⟨id, hid, h⟩ := bind_ok_iff.1 h
  exact readDefinition_loaded (ShapeId.spelled_of_read hid) hentry h

/-! ### Documents -/

/-- All shapes are loaded, and all operations of resources have a text form. -/
structure Loaded (a : Assembly) : Prop where
  shapes : ∀ s ∈ a.model.shapes, s.Loaded
  operations : ∀ e ∈ a.resources, ∀ id ∈ e.2.operations, id.Spelled

variable {a a' : Assembly}

theorem loaded_empty : Loaded {} where
  shapes _ hs := absurd hs List.not_mem_nil
  operations _ he := absurd he List.not_mem_nil

theorem mem_insertResource {r : Resource} {e : ShapeId × Resource} :
    ∀ {resources : List (ShapeId × Resource)}, e ∈ insertResource id r resources → e.2 = r ∨ e ∈ resources
  | [], h => .inl (by rw [List.mem_singleton.1 h])
  | (k, v) :: rest, h => by
    unfold insertResource at h
    split at h
    · rcases List.mem_cons.1 h with rfl | h
      · exact .inl rfl
      · exact .inr (List.mem_cons_of_mem _ h)
    · rcases List.mem_cons.1 h with rfl | h
      · exact .inr List.mem_cons_self
      · exact (mem_insertResource h).imp_right (List.mem_cons_of_mem _)

theorem add_loaded {s : Shape} (hm : ∀ t ∈ m.shapes, t.Loaded) (hs : s.Loaded) (h : m.add s = .ok m') :
    ∀ t ∈ m'.shapes, t.Loaded := by
  intro t ht
  rw [(Model.add_ok h).2.shapes] at ht
  rcases List.mem_append.1 ht with ht | ht
  · exact hm t ht
  · rw [List.mem_singleton.1 ht]
    exact hs

theorem put_loaded (ha : a.Loaded) (hd : d.Loaded) (h : a.put d = .ok a') : a'.Loaded := by
  cases d with
  | shape s | service s held =>
    obtain ⟨m, hm, h⟩ := bind_ok_iff.1 h
    cases h
    exact ⟨add_loaded ha.shapes hd hm, ha.operations⟩
  | resource id r =>
    cases h
    refine ⟨ha.shapes, fun e he => ?_⟩
    rcases mem_insertResource he with heq | he
    · rw [heq]
      exact hd
    · exact ha.operations e he

theorem mergeMetadata_loaded {key : String} {value : Json} (ha : a.Loaded) (h : a.mergeMetadata key value = .ok a') :
    a'.Loaded := by
  obtain ⟨merged, -, h⟩ := bind_ok_iff.1 h
  cases h
  exact ⟨ha.shapes, ha.operations⟩

/-- **Documents keep an assembly loaded.** -/
theorem pushDocument_loaded {d : Document} (ha : a.Loaded) (hd : d.Keyed) (h : a.pushDocument d = .ok a') :
    a'.Loaded := by
  unfold pushDocument at h
  obtain ⟨b, hb, h⟩ := bind_ok_iff.1 h
  have hmerged : b.Loaded := foldlM_preserves (fun e _ => mergeMetadata_loaded) ha hb
  refine foldlM_preserves (fun e he c c' hc hstep => ?_) hmerged h
  obtain ⟨definition, hdefine, hput⟩ := bind_ok_iff.1 hstep
  exact put_loaded hc (define_loaded (hd.members e he) hdefine) hput

theorem push_loaded {s : String} (ha : a.Loaded) (h : a.push s = .ok a') : a'.Loaded := by
  unfold push at h
  split at h
  · next d hd => exact pushDocument_loaded ha (Document.read_keyed hd) h
  · cases h

/-! ### Resources -/

theorem boundOperations_mem {resources : List (ShapeId × Resource)} {service : ShapeId} {fuel : Nat} :
    ∀ {stack seen ids : List ShapeId}, boundOperations resources service fuel stack seen = .ok ids →
      ∀ id ∈ ids, ∃ e ∈ resources, id ∈ e.2.operations := by
  induction fuel with
  | zero =>
    rintro stack seen ids ⟨⟩ id hid
    cases hid
  | succ fuel ih =>
    intro stack seen ids h id hid
    unfold boundOperations at h
    split at h
    · cases h
      cases hid
    · split at h
      · cases h
      · next hfind =>
        obtain ⟨more, hmore, h⟩ := bind_ok_iff.1 h
        cases h
        rcases List.mem_append.1 hid with hid | hid
        · exact ⟨_, List.mem_of_find?_eq_some hfind, hid⟩
        · exact ih hmore id hid

theorem mem_appendNew {x : ShapeId} {more : List ShapeId} :
    ∀ {xs : List ShapeId}, x ∈ appendNew xs more → x ∈ xs ∨ x ∈ more := by
  induction more with
  | nil => exact .inl
  | cons y more ih =>
    intro xs h
    rcases ih h with hx | hx
    · dsimp only at hx
      split at hx
      · exact .inl hx
      · rcases List.mem_append.1 hx with hx | hx
        · exact .inl hx
        · rw [List.mem_singleton.1 hx]
          exact .inr List.mem_cons_self
    · exact .inr (List.mem_cons_of_mem _ hx)

theorem replace_loaded {s : Shape} (hm : ∀ t ∈ m.shapes, t.Loaded) (h : m.replace s = .ok m') (hs : s.Loaded) :
    ∀ t ∈ m'.shapes, t.Loaded := by
  intro t ht
  obtain ⟨i, -, hreplaced⟩ := Model.replace_ok h
  rw [hreplaced.shapes] at ht
  rcases List.mem_or_eq_of_mem_set ht with ht | rfl
  · exact hm t ht
  · exact hs

theorem mem_of_replace {s t : Shape} (hget : m.get? id = some s) (h : m.replace t = .ok m') (hid : t.id = s.id) :
    s ∈ m.shapes := by
  obtain ⟨i, hi, -⟩ := Model.replace_ok h
  have hdeclares : m.declares s.id = true := by
    rw [Model.declares_iff_position?, ← hid, hi]
    simp
  unfold Model.get? at hget
  cases hd : m.declared? id.root with
  | some found =>
    rw [hd] at hget
    cases hget
    exact Model.mem_of_declared? hd
  | none =>
    -- a prelude shape is found only if its id is not declared
    rw [hd] at hget
    obtain ⟨t, ht⟩ := Model.declares_iff.1 hdeclares
    rw [Model.prelude_id hget, hd] at ht
    cases ht

theorem flatten_loaded {resources : List (ShapeId × Resource)} {service : ShapeId} {held : List ShapeId}
    (hoperations : ∀ e ∈ resources, ∀ id ∈ e.2.operations, id.Spelled) (hm : ∀ s ∈ m.shapes, s.Loaded)
    (h : flatten resources m service held = .ok m') : ∀ s ∈ m'.shapes, s.Loaded := by
  unfold flatten at h
  obtain ⟨extra, hextra, h⟩ := bind_ok_iff.1 h
  split at h
  · cases h
    exact hm
  · obtain ⟨shape, hshape, h⟩ := bind_ok_iff.1 h
    have hget := Model.expect_eq_ok.1 hshape
    split at h
    · next s hkind =>
      have hloaded := hm shape (mem_of_replace hget h rfl)
      refine replace_loaded hm h ⟨hloaded.id, loaded_of_no_members rfl fun id hid => ?_⟩
      -- the operations are those of the service and those of resources
      have hreferences := hloaded.kind.references
      rw [hkind] at hreferences
      rcases List.mem_append.1 hid with hid | hid
      · rcases mem_appendNew hid with hid | hid
        · exact hreferences id (List.mem_append_left _ hid)
        · obtain ⟨e, he, hid⟩ := boundOperations_mem hextra id hid
          exact hoperations e he id hid
      · exact hreferences id (List.mem_append_right _ hid)
    · exact replace_loaded hm h (hm shape (mem_of_replace hget h rfl))

theorem finish_loaded {m : Model} (ha : a.Loaded) (h : a.finish = .ok m) : ∀ s ∈ m.shapes, s.Loaded :=
  foldlM_preserves (P := fun m : Model => ∀ s ∈ m.shapes, s.Loaded) (fun _ _ => flatten_loaded ha.operations) ha.shapes h

end Assembly

namespace Model

variable {m : Model} {text : String}

theorem ofDocument_loaded (h : ofDocument text = .ok m) : ∀ s ∈ m.shapes, s.Loaded := by
  obtain ⟨a, ha, h⟩ := bind_ok_iff.1 h
  exact Assembly.finish_loaded (Assembly.push_loaded Assembly.loaded_empty ha) h

/-- A shape of the list is what its id resolves to, unless that is the id of a member: such an id resolves to
the shape without the member part. -/
theorem get?_eq_self_iff {s : Shape} (hs : s ∈ m.shapes) : m.get? s.id = some s ↔ s.id.member = none := by
  constructor
  · intro h
    rw [(get?_id h).1]
    rfl
  · intro h
    have hroot : s.id.root = s.id := by
      unfold ShapeId.root
      rw [← h]
    unfold get?
    rw [hroot, declared?_of_mem hs]

theorem member?_of_loaded {s : Shape} {member : Member} (hs : s ∈ m.shapes) (hloaded : s.Loaded)
    (hplain : s.id.member = none) (hmember : member ∈ s.members) : m.member? member.id = some member := by
  have hid := hloaded.kind.memberIds member hmember
  have hget : m.get? member.id = some s := by
    rw [hid]
    exact (get?_eq_self_iff hs).2 hplain
  have hname : member.id.member = some member.name := by
    rw [hid]
    rfl
  unfold member?
  rw [hname, hget]
  exact hloaded.member? hmember

/-- **What the ids of a loaded model lead to, and what their texts are read as.** Ids of shapes and of what they
refer to always read back. Members are taken by any name, so the id of a member reads back if and only if
the name is an identifier. A shape may stand under the id of a member; then the id leads elsewhere, and so do
those of its members. -/
theorem ofDocument_addressable (h : ofDocument text = .ok m) :
    ∀ s ∈ m.shapes,
      ShapeId.parse? s.id.text = some s.id ∧
      (m.get? s.id = some s ↔ s.id.member = none) ∧
      (∀ id ∈ s.references, ShapeId.parse? id.text = some id) ∧
      ∀ member ∈ s.members,
        (s.id.member = none → m.member? member.id = some member) ∧
        (ShapeId.parse? member.id.text = some member.id ↔ Text.isIdentifier member.name.toList = true) ∧
        ShapeId.parse? member.target.text = some member.target := by
  intro s hs
  have hloaded := ofDocument_loaded h s hs
  have hreferences : ∀ id ∈ s.references, ShapeId.parse? id.text = some id := fun id hid =>
    ShapeId.parse?_text_iff.2 (hloaded.kind.references id hid)
  refine ⟨ShapeId.parse?_text_iff.2 hloaded.id, get?_eq_self_iff hs, hreferences, fun member hmember => ⟨?_, ?_, ?_⟩⟩
  · exact fun hplain => member?_of_loaded hs hloaded hplain hmember
  · rw [ShapeId.parse?_text_iff, hloaded.kind.memberIds member hmember, ShapeId.spelled_withMember_iff hloaded.id]
  · exact hreferences _ (Kind.target_mem_references hmember)

/-- A structure under the id of a member, with a member whose name is no identifier. -/
def looseShape : Shape :=
  let id : ShapeId := { ns := "ex", name := "S", member := some "m" }
  { id, kind := .struct [{ id := id.withMember "a-b", target := .prelude "String" }] }

def looseText : String :=
  "\x7b\"shapes\": \x7b\"ex#S$m\": \x7b\"type\": \"structure\", \"members\": \x7b\"a-b\": \x7b\"target\": \"smithy.api#String\"\x7d\x7d\x7d\x7d\x7d"

/-- Such a document is accepted, but the id of its shape resolves to nothing, and the member's does not read back. -/
theorem loose_not_addressable : ∃ m, ofDocument looseText = .ok m ∧ m.shapes = [looseShape] ∧
    ShapeId.parse? looseShape.id.text = some looseShape.id ∧ m.get? looseShape.id ≠ some looseShape ∧
    ∀ member ∈ looseShape.members, ShapeId.parse? member.id.text ≠ some member.id ∧
      ShapeId.parse? member.target.text = some member.target := by
  have hload : ofDocument looseText = .ok { shapes := [looseShape], distinct := List.nodup_singleton _ } := by
    cbv
  obtain ⟨hid, hget, -, hmembers⟩ := ofDocument_addressable hload looseShape List.mem_cons_self
  refine ⟨_, hload, rfl, hid, fun h => ?_, fun member hmember => ?_⟩
  · cases hget.1 h
  · obtain ⟨-, hread, htarget⟩ := hmembers member hmember
    obtain rfl := List.mem_singleton.1 hmember
    refine ⟨fun h => ?_, htarget⟩
    exact absurd (hread.1 h) (by decide)

end Model

end ClientGen
