import ClientGen.Proofs.LoadedShapes

/-!
# Ids that several documents define

Documents are merged one after another. A shape that is there already is refused, whichever document it is
in. A resource is no shape of the model: it is put in the place of an earlier one, and may have the id of a shape.

* `Assembly.put_error_iff`, `Assembly.pushDocument_ok`, `Assembly.pushDocument_error`: one definition, one document.
* `Assembly.merge_definedOnce`: documents that have nothing else wrong can be merged if and only if no two of them
  define the same shape, and of the definitions of a resource the last counts.
-/

namespace ClientGen

/-- The id under which a definition adds to the shapes of a model. -/
def Definition.shapeId? : Definition → Option ShapeId
  | .shape s => some s.id
  | .service s _ => some s.id
  | .resource _ _ => none

/-- The resource that a definition gives the id. -/
def Definition.resourceAt? (id : ShapeId) : Definition → Option Resource
  | .resource key r => if key = id then some r else none
  | _ => none

/-- The ids of the shapes in a document, resources not among them. -/
def Document.shapeIds (d : Document) : List ShapeId :=
  d.shapes.filterMap fun e => if e.2.type = "resource" then none else ShapeId.parse? e.1

/-- Two documents of the list have the id as that of a shape. -/
def DefinedTwice (docs : List Document) (id : ShapeId) : Prop :=
  ∃ d d', [d, d'].Sublist docs ∧ id ∈ d.shapeIds ∧ id ∈ d'.shapeIds

theorem not_definedTwice_iff {docs : List Document} :
    (∀ id, ¬ DefinedTwice docs id) ↔ docs.Pairwise fun d d' => d.shapeIds.Disjoint d'.shapeIds := by
  rw [List.pairwise_iff_forall_sublist]
  constructor
  · intro h d d' hsub id hd hd'
    exact h id ⟨d, d', hsub, hd, hd'⟩
  · rintro h id ⟨d, d', hsub, hd, hd'⟩
    exact h hsub hd hd'

theorem Document.key_of_shapeId {e : String × ShapeEntry} {id : ShapeId}
    (h : (if e.2.type = "resource" then none else ShapeId.parse? e.1) = some id) : id.Spelled ∧ id.text = e.1 := by
  split at h
  · cases h
  · exact ShapeId.parse?_eq_some_iff.1 h

theorem Document.Keyed.shapeIds_nodup {d : Document} (h : d.Keyed) : d.shapeIds.Nodup := by
  unfold Document.shapeIds
  refine List.Pairwise.filterMap _ ?_ (List.pairwise_map.1 h.shapes.nodup)
  intro e e' hne id hid id' hid' heq
  -- an id has one text
  rw [← (Document.key_of_shapeId hid).2, ← (Document.key_of_shapeId hid').2, heq] at hne
  exact hne rfl

namespace Assembly

variable {a a' : Assembly} {d : Definition} {defs : List Definition} {e : Error}

/-- The ids of the shapes so far. -/
def ids (a : Assembly) : List ShapeId := a.model.shapes.map Shape.id

/-- The resource with an id. -/
def resource? (a : Assembly) (id : ShapeId) : Option Resource :=
  (a.resources.find? fun r => r.1 == id).map (·.2)

/-! ### One definition -/

theorem define_shapeId? {key : String} {entry : ShapeEntry} (h : define key entry = .ok d) :
    d.shapeId? = if entry.type = "resource" then none else ShapeId.parse? key := by
  obtain ⟨id, hid, h⟩ := bind_ok_iff.1 h
  have hkey : ShapeId.parse? key = some id := by
    unfold ShapeId.read at hid
    split at hid
    · cases hid
      assumption
    · cases hid
  unfold readDefinition at h
  obtain ⟨traits, -, h⟩ := bind_ok_iff.1 h
  split at h
  · next htype =>
    obtain ⟨held, -, h⟩ := bind_ok_iff.1 h
    obtain ⟨operations, -, h⟩ := bind_ok_iff.1 h
    obtain ⟨errors, -, h⟩ := bind_ok_iff.1 h
    cases h
    rw [htype, if_neg (by decide), hkey]
    rfl
  · next htype =>
    obtain ⟨bound, -, h⟩ := bind_ok_iff.1 h
    obtain ⟨ofCollection, -, h⟩ := bind_ok_iff.1 h
    obtain ⟨lifecycle, -, h⟩ := bind_ok_iff.1 h
    obtain ⟨resources, -, h⟩ := bind_ok_iff.1 h
    cases h
    rw [if_pos htype]
    rfl
  · next htype =>
    obtain ⟨kind, -, h⟩ := bind_ok_iff.1 h
    cases h
    rw [if_neg htype, hkey]
    rfl

theorem shapeIds_of_mapM {doc : Document} (h : doc.shapes.mapM (fun e => define e.1 e.2) = .ok defs) :
    defs.filterMap Definition.shapeId? = doc.shapeIds := by
  have hmap := map_eq_of_mapM (g := Definition.shapeId?) (fun _ _ hdefine => define_shapeId? hdefine) h
  calc defs.filterMap Definition.shapeId? = (defs.map Definition.shapeId?).filterMap id := by
        rw [List.filterMap_map]
        rfl
    _ = doc.shapeIds := by
        rw [hmap, List.filterMap_map]
        rfl

/-- The second assembly is the first with the definitions, in order. -/
structure Gains (a : Assembly) (defs : List Definition) (a' : Assembly) : Prop where
  ids : a'.ids = a.ids ++ defs.filterMap Definition.shapeId?
  /-- Of the definitions of a resource the last counts. -/
  resources : ∀ id, a'.resource? id = (defs.reverse.findSome? (·.resourceAt? id)).or (a.resource? id)

theorem Gains.trans {b : Assembly} {more : List Definition} (h : a.Gains defs b) (h' : b.Gains more a') :
    a.Gains (defs ++ more) a' where
  ids := by rw [h'.ids, h.ids, List.filterMap_append, List.append_assoc]
  resources id := by
    rw [h'.resources, h.resources, List.reverse_append, List.findSome?_append, Option.or_assoc]

theorem resource?_insertResource (key id : ShapeId) (r : Resource) : ∀ resources : List (ShapeId × Resource),
    ((insertResource key r resources).find? fun e => e.1 == id).map (·.2) =
      if key = id then some r else (resources.find? fun e => e.1 == id).map (·.2)
  | [] => by
    unfold insertResource
    by_cases h : key = id <;> simp [h]
  | (k, v) :: rest => by
    have ih := resource?_insertResource key id r rest
    unfold insertResource
    by_cases hk : k = key
    · rw [if_pos (beq_iff_eq.2 hk)]
      by_cases h : key = id
      · simp [hk, h]
      · have hkid : (k == id) = false := beq_eq_false_iff_ne.2 (hk ▸ h)
        simp [h, hkid]
    · rw [if_neg (by simpa using hk)]
      by_cases hkid : k = id
      · have hne : key ≠ id := fun h => hk (hkid.trans h.symm)
        simp [hkid, hne]
      · have hkid' : (k == id) = false := beq_eq_false_iff_ne.2 hkid
        simpa [List.find?_cons, hkid'] using ih

theorem put_gains (h : a.put d = .ok a') : a.Gains [d] a' := by
  cases d with
  | shape s | service s held =>
    obtain ⟨m, hm, h⟩ := bind_ok_iff.1 h
    cases h
    obtain ⟨-, hadded⟩ := Model.add_ok hm
    exact ⟨hadded.ids, fun id => rfl⟩
  | resource key r =>
    cases h
    refine ⟨(List.append_nil _).symm, fun id => ?_⟩
    unfold resource?
    rw [resource?_insertResource]
    by_cases h : key = id <;> simp [Definition.resourceAt?, h]

theorem put_metadata (h : a.put d = .ok a') : a'.model.metadata = a.model.metadata := by
  cases d with
  | shape s | service s held =>
    obtain ⟨m, hm, h⟩ := bind_ok_iff.1 h
    cases h
    exact (Model.add_ok hm).2.metadata
  | resource key r =>
    cases h
    rfl

/-- **A definition is refused if and only if it is that of a shape whose id is there already.** -/
theorem put_error_iff :
    a.put d = .error e ↔ ∃ id ∈ a.ids, d.shapeId? = some id ∧ e = .invalidModel (.duplicateShape id) := by
  have hadd : ∀ s : Shape, a.model.add s = .error e ↔
      ∃ id ∈ a.ids, some s.id = some id ∧ e = .invalidModel (.duplicateShape id) := by
    intro s
    rw [Model.add_error_iff, Ne, Model.position?_eq_none_iff, not_not]
    constructor
    · rintro ⟨hmem, he⟩
      exact ⟨s.id, hmem, rfl, he⟩
    · rintro ⟨id, hmem, ⟨⟩, he⟩
      exact ⟨hmem, he⟩
  cases d with
  | shape s | service s held =>
    rw [put, bind_error_iff, hadd]
    simp [Definition.shapeId?, pure, Except.pure]
  | resource key r => simp [put, Definition.shapeId?, pure, Except.pure]

/-! ### One document -/

theorem putAll_gains : ∀ {a : Assembly}, defs.foldlM put a = .ok a' → a.Gains defs a' := by
  induction defs with
  | nil =>
    rintro a ⟨⟩
    exact ⟨(List.append_nil _).symm, fun id => rfl⟩
  | cons d defs ih =>
    intro a h
    rw [List.foldlM_cons] at h
    obtain ⟨b, hb, h⟩ := bind_ok_iff.1 h
    exact (put_gains hb).trans (ih h)

theorem putAll_error : ∀ {a : Assembly}, defs.foldlM put a = .error e →
    ∃ before id after, defs.filterMap Definition.shapeId? = before ++ id :: after ∧ id ∈ a.ids ++ before ∧
      e = .invalidModel (.duplicateShape id) := by
  induction defs with
  | nil => rintro a ⟨⟩
  | cons d defs ih =>
    intro a h
    rw [List.foldlM_cons] at h
    rcases bind_error_iff.1 h with hput | ⟨b, hb, h⟩
    · obtain ⟨id, hmem, hid, he⟩ := put_error_iff.1 hput
      refine ⟨[], id, defs.filterMap Definition.shapeId?, ?_, by simpa using hmem, he⟩
      rw [List.filterMap_cons_some hid]
      rfl
    · obtain ⟨before, id, after, hdefs, hmem, he⟩ := ih h
      refine ⟨d.shapeId?.toList ++ before, id, after, ?_, ?_, he⟩
      · cases hd : d.shapeId? with
        | none =>
          rw [List.filterMap_cons_none hd]
          exact hdefs
        | some id' =>
          rw [List.filterMap_cons_some hd, hdefs]
          rfl
      · have hids : b.ids = a.ids ++ d.shapeId?.toList := by
          rw [(put_gains hb).ids]
          cases hd : d.shapeId? <;> simp [hd]
        rw [hids, List.append_assoc] at hmem
        exact hmem

/-- The metadata with that of an entry merged in. -/
def mergeEntry (o : Json.Object) (entry : String × Json) : Except Error Json.Object := do
  return Json.Object.insert entry.1 (← mergeValue entry.1 (o.get? entry.1) entry.2) o

/-- The assembly with other metadata. -/
def withMetadata (a : Assembly) (o : Json.Object) : Assembly := { a with model := { a.model with metadata := o } }

theorem ids_withMetadata (o : Json.Object) : (a.withMetadata o).ids = a.ids := rfl

theorem Gains.of_withMetadata {o : Json.Object} (h : (a.withMetadata o).Gains defs a') : a.Gains defs a' :=
  ⟨h.ids, h.resources⟩

theorem mergeMetadata_eq (a : Assembly) (key : String) (value : Json) :
    a.mergeMetadata key value = (mergeEntry a.model.metadata (key, value)).map a.withMetadata := by
  unfold mergeMetadata mergeEntry
  cases mergeValue key (a.model.metadata.get? key) value <;> rfl

theorem mergeMetadata_foldlM {entries : Json.Object} : ∀ {a : Assembly},
    entries.foldlM (fun a (key, value) => mergeMetadata a key value) a =
      (entries.foldlM mergeEntry a.model.metadata).map a.withMetadata := by
  induction entries with
  | nil =>
    intro a
    rfl
  | cons entry rest ih =>
    intro a
    obtain ⟨key, value⟩ := entry
    rw [List.foldlM_cons, List.foldlM_cons]
    dsimp only
    rw [mergeMetadata_eq]
    cases mergeEntry a.model.metadata (key, value) with
    | error e => rfl
    | ok o => exact ih

theorem pushDocument_eq {doc : Document} {o : Json.Object} (hmetadata : doc.metadata.foldlM mergeEntry a.model.metadata = .ok o)
    (hdefs : doc.shapes.mapM (fun e => define e.1 e.2) = .ok defs) :
    a.pushDocument doc = defs.foldlM put (a.withMetadata o) := by
  unfold pushDocument
  rw [mergeMetadata_foldlM, hmetadata]
  exact foldlM_of_mapM hdefs (a.withMetadata o)

theorem pushDocument_ok {doc : Document} (h : a.pushDocument doc = .ok a') :
    ∃ o defs, doc.metadata.foldlM mergeEntry a.model.metadata = .ok o ∧
      doc.shapes.mapM (fun e => define e.1 e.2) = .ok defs ∧ a.Gains defs a' := by
  have h' := h
  unfold pushDocument at h
  rw [mergeMetadata_foldlM] at h
  obtain ⟨b, hb, h⟩ := bind_ok_iff.1 h
  cases hmerge : doc.metadata.foldlM mergeEntry a.model.metadata with
  | error e =>
    rw [hmerge] at hb
    cases hb
  | ok o =>
    obtain ⟨defs, hdefs⟩ := mapM_of_foldlM h
    rw [pushDocument_eq hmerge hdefs] at h'
    exact ⟨o, defs, rfl, hdefs, (putAll_gains h').of_withMetadata⟩

/-! ### All documents -/

variable {docs : List Document}

theorem pushDocuments_ids : ∀ {a : Assembly}, docs.foldlM pushDocument a = .ok a' →
    a'.ids = a.ids ++ docs.flatMap Document.shapeIds := by
  induction docs with
  | nil =>
    rintro a ⟨⟩
    exact (List.append_nil _).symm
  | cons doc docs ih =>
    intro a h
    rw [List.foldlM_cons] at h
    obtain ⟨b, hb, h⟩ := bind_ok_iff.1 h
    obtain ⟨o, defs, -, hdefs, hgains⟩ := pushDocument_ok hb
    have hids : b.ids = a.ids ++ doc.shapeIds := by
      rw [hgains.ids, shapeIds_of_mapM hdefs]
    rw [ih h, hids, List.flatMap_cons, List.append_assoc]

/-- Documents whose metadata agree and whose entries can be read fail at the first shape whose id stands
before, in an earlier document or in the same one. -/
theorem pushDocuments_cases : ∀ {a : Assembly} {o : Json.Object} {defs : List Definition},
    (docs.flatMap Document.metadata).foldlM mergeEntry a.model.metadata = .ok o →
    (docs.flatMap Document.shapes).mapM (fun e => define e.1 e.2) = .ok defs →
    (∃ a', docs.foldlM pushDocument a = .ok a' ∧ a.Gains defs a') ∨
    ∃ before doc after pre id post, docs = before ++ doc :: after ∧ doc.shapeIds = pre ++ id :: post ∧
      id ∈ a.ids ++ before.flatMap Document.shapeIds ++ pre ∧
      docs.foldlM pushDocument a = .error (.invalidModel (.duplicateShape id)) := by
  induction docs with
  | nil =>
    rintro a o defs ⟨⟩ ⟨⟩
    exact .inl ⟨a, rfl, (List.append_nil _).symm, fun id => rfl⟩
  | cons doc docs ih =>
    intro a o defs hmetadata hdefs
    rw [List.flatMap_cons, List.foldlM_append] at hmetadata
    obtain ⟨o₁, ho₁, hmetadata⟩ := bind_ok_iff.1 hmetadata
    rw [List.flatMap_cons, List.mapM_append] at hdefs
    obtain ⟨defs₁, hdefs₁, hdefs⟩ := bind_ok_iff.1 hdefs
    obtain ⟨defs₂, hdefs₂, hdefs⟩ := bind_ok_iff.1 hdefs
    cases hdefs
    rw [List.foldlM_cons, pushDocument_eq ho₁ hdefs₁]
    cases hput : defs₁.foldlM put (a.withMetadata o₁) with
    | error e =>
      obtain ⟨pre, id, post, hids, hmem, rfl⟩ := putAll_error hput
      rw [ids_withMetadata] at hmem
      rw [shapeIds_of_mapM hdefs₁] at hids
      exact .inr ⟨[], doc, docs, pre, id, post, rfl, hids, by simpa using hmem, rfl⟩
    | ok b =>
      have hgains : a.Gains defs₁ b := (putAll_gains hput).of_withMetadata
      -- shapes leave the metadata alone, so the next document merges into what this one left
      have hb : b.model.metadata = o₁ := foldlM_preserves (P := fun c => c.model.metadata = o₁)
        (fun _ _ _ _ hc hstep => (put_metadata hstep).trans hc) rfl hput
      rw [← hb] at hmetadata
      rcases ih hmetadata hdefs₂ with
        ⟨a', ha', hrest⟩ | ⟨before, later, after, pre, id, post, hdocs, hids, hmem, herror⟩
      · exact .inl ⟨a', ha', hgains.trans hrest⟩
      · refine .inr ⟨doc :: before, later, after, pre, id, post, by rw [hdocs]; rfl, hids, ?_, herror⟩
        have hbids : b.ids = a.ids ++ doc.shapeIds := by
          rw [hgains.ids, shapeIds_of_mapM hdefs₁]
        rw [hbids] at hmem
        simpa [List.append_assoc] using hmem

/-- Documents given as text, one after another. -/
def pushAll (texts : List String) : Except Error Assembly := texts.foldlM push {}

theorem push_foldlM {texts : List String} (h : texts.mapM Document.read = some docs) :
    ∀ a : Assembly, texts.foldlM push a = docs.foldlM pushDocument a := by
  induction texts generalizing docs with
  | nil =>
    cases h
    exact fun a => rfl
  | cons text texts ih =>
    rw [List.mapM_cons] at h
    obtain ⟨doc, hdoc, h⟩ := Option.bind_eq_some_iff.1 h
    obtain ⟨rest, hrest, h⟩ := Option.bind_eq_some_iff.1 h
    cases h
    intro a
    rw [List.foldlM_cons, List.foldlM_cons, push, hdoc]
    exact bind_congr fun b => ih hrest b

/-- Nothing is wrong with the documents apart from ids that they define more than once: their metadata agree,
and their entries are read as the definitions. -/
structure Sound (docs : List Document) (defs : List Definition) : Prop where
  metadata : ∃ o, (docs.flatMap Document.metadata).foldlM mergeEntry [] = .ok o
  definitions : (docs.flatMap Document.shapes).mapM (fun e => define e.1 e.2) = .ok defs

theorem not_definedTwice (h : docs.foldlM pushDocument {} = .ok a) : ∀ id, ¬ DefinedTwice docs id := by
  have hids : a.ids = docs.flatMap Document.shapeIds := pushDocuments_ids h
  have hnodup : (docs.flatMap Document.shapeIds).Nodup := hids ▸ a.model.distinct
  exact not_definedTwice_iff.2 (List.nodup_flatMap.1 hnodup).2

theorem definedTwice_of_split {before after : List Document} {doc : Document} {pre post : List ShapeId}
    {id : ShapeId} (hkeyed : doc.Keyed) (hdocs : docs = before ++ doc :: after) (hids : doc.shapeIds = pre ++ id :: post)
    (hmem : id ∈ before.flatMap Document.shapeIds ++ pre) : DefinedTwice docs id := by
  have hdoc : id ∈ doc.shapeIds := by simp [hids]
  rcases List.mem_append.1 hmem with hmem | hmem
  · obtain ⟨d, hd, hid⟩ := List.mem_flatMap.1 hmem
    refine ⟨d, doc, ?_, hid, hdoc⟩
    rw [hdocs]
    exact (List.singleton_sublist.2 hd).append (List.singleton_sublist.2 List.mem_cons_self)
  · -- a document has each id once
    have hnodup := hkeyed.shapeIds_nodup
    rw [hids, List.nodup_append] at hnodup
    exact absurd rfl (hnodup.2.2 id hmem id List.mem_cons_self)

end Assembly

/-- The model of several documents. -/
def Model.ofDocuments (texts : List String) : Except Error Model := do
  let a ← Assembly.pushAll texts
  a.finish

namespace Assembly

/-- **Which definitions of one id are refused.** Documents that two times define a shape cannot be merged. If there
is nothing else wrong with them, then that is what the error says; otherwise they can be merged, with the shapes in
order. Resources are not among the shapes: of the definitions of a resource the last counts, and none is compared
with a shape. -/
theorem merge_definedOnce {texts : List String} {docs : List Document} (hread : texts.mapM Document.read = some docs) :
    (∀ a, pushAll texts = .ok a → ∀ id, ¬ DefinedTwice docs id) ∧
    ∀ defs, Sound docs defs →
      ((∃ id, DefinedTwice docs id) → ∃ id, DefinedTwice docs id ∧
        Model.ofDocuments texts = .error (.invalidModel (.duplicateShape id))) ∧
      ((∀ id, ¬ DefinedTwice docs id) → ∃ a, pushAll texts = .ok a ∧ a.ids = docs.flatMap Document.shapeIds ∧
        ∀ id, a.resource? id = defs.reverse.findSome? (·.resourceAt? id)) := by
  have hpush : pushAll texts = docs.foldlM pushDocument {} := push_foldlM hread {}
  have hkeyed : ∀ doc ∈ docs, doc.Keyed := by
    intro doc hdoc
    obtain ⟨text, -, htext⟩ := exists_of_mem_mapM_some hread hdoc
    exact Document.read_keyed htext
  refine ⟨fun a ha => not_definedTwice (hpush ▸ ha), fun defs hsound => ?_⟩
  obtain ⟨o, ho⟩ := hsound.metadata
  rcases pushDocuments_cases (a := {}) ho hsound.definitions with
    ⟨a, ha, hgains⟩ | ⟨before, doc, after, pre, id, post, hdocs, hids, hmem, herror⟩
  · refine ⟨?_, fun _ => ⟨a, hpush ▸ ha, pushDocuments_ids ha, fun id => ?_⟩⟩
    · rintro ⟨id, hid⟩
      exact absurd hid (not_definedTwice ha id)
    · rw [hgains.resources, show ({} : Assembly).resource? id = none from rfl, Option.or_none]
  · rw [show ({} : Assembly).ids = [] from rfl, List.nil_append] at hmem
    have htwice : DefinedTwice docs id := definedTwice_of_split (hkeyed doc (by simp [hdocs])) hdocs hids hmem
    refine ⟨fun _ => ⟨id, htwice, ?_⟩, fun hnone => absurd htwice (hnone id)⟩
    unfold Model.ofDocuments
    rw [hpush, herror]
    rfl

/-- A resource with an operation. -/
def firstText : String :=
  "\x7b\"shapes\": \x7b\"ex#R\": \x7b\"type\": \"resource\", \"operations\": [\x7b\"target\": \"ex#A\"\x7d]\x7d\x7d\x7d"

/-- The same with another operation. -/
def secondText : String :=
  "\x7b\"shapes\": \x7b\"ex#R\": \x7b\"type\": \"resource\", \"operations\": [\x7b\"target\": \"ex#B\"\x7d]\x7d\x7d\x7d"

/-- A structure with the id of the resource. -/
def thirdText : String := "\x7b\"shapes\": \x7b\"ex#R\": \x7b\"type\": \"structure\"\x7d\x7d\x7d"

/-- The documents of these texts. -/
def sameIdDocuments : List Document := [
  { shapes := [("ex#R", { type := "resource", operations := ["ex#A"] })] },
  { shapes := [("ex#R", { type := "resource", operations := ["ex#B"] })] },
  { shapes := [("ex#R", { type := "structure" })] }]

/-- Three documents that define the same id are merged, with the operations of the second resource. -/
theorem merge_three_of_one_id : ∃ a, pushAll [firstText, secondText, thirdText] = .ok a ∧
    a.ids = [⟨"ex", "R", none⟩] ∧ a.resource? ⟨"ex", "R", none⟩ = some ⟨[⟨"ex", "B", none⟩], []⟩ := by
  have hread : [firstText, secondText, thirdText].mapM Document.read = some sameIdDocuments := by
    cbv
  have hsound : Sound sameIdDocuments [
      .resource ⟨"ex", "R", none⟩ ⟨[⟨"ex", "A", none⟩], []⟩,
      .resource ⟨"ex", "R", none⟩ ⟨[⟨"ex", "B", none⟩], []⟩,
      .shape { id := ⟨"ex", "R", none⟩, kind := .struct [] }] := ⟨⟨[], by cbv⟩, by cbv⟩
  have hids : sameIdDocuments.map Document.shapeIds = [[], [], [⟨"ex", "R", none⟩]] := by cbv
  have honce : ∀ id, ¬ DefinedTwice sameIdDocuments id := by
    rw [not_definedTwice_iff, ← List.pairwise_map (R := List.Disjoint), hids]
    simp
  obtain ⟨a, ha, hshapes, hresources⟩ := ((merge_definedOnce hread).2 _ hsound).2 honce
  refine ⟨a, ha, ?_, hresources _⟩
  rw [hshapes, List.flatMap_def, hids]
  rfl

end Assembly

end ClientGen
