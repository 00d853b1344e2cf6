import ClientGen.Proofs.IdGrammar
import ClientGen.Proofs.ResourceSearch
import Mathlib.Data.List.Forall2

/-!
# Resources flattened into services

When all documents are merged, each service gets the operations of the resources that it holds, one service after
another. A service has its own entry among the holdings, and what one gets does not depend on another, so their order
does not matter.

* `Assembly.flatten_cases`: one service.
* `Assembly.flattenAll_cases`: all of them. The shapes of the result are those before, each with what its own
  entry gives it (`Assembly.Attached`), which is a condition on the entries and not on their order.
* `Assembly.pushAll_collected`: after merging documents the entries are those of the services, one each.
* `Assembly.finish_flattens`: when this fails, and what the result is.
-/

namespace ClientGen

/-- The shape with further operations, those that are new. Only services have operations. -/
def Shape.attach (s : Shape) (ops : List ShapeId) : Shape :=
  match s.kind with
  | .service svc => { s with kind := .service { svc with operations := Assembly.appendNew svc.operations ops } }
  | _ => s

def Shape.IsService (s : Shape) : Prop := ∃ svc, s.kind = .service svc

@[simp] theorem Shape.id_attach (s : Shape) (ops : List ShapeId) : (s.attach ops).id = s.id := by
  unfold Shape.attach
  split <;> rfl

@[simp] theorem Shape.attach_nil (s : Shape) : s.attach [] = s := by
  obtain ⟨id, kind, traits⟩ := s
  cases kind <;> rfl

/-- A shape that is declared can be replaced, and takes the place of the one with its id. -/
theorem Model.replace_of_mem {m : Model} {t : Shape} (h : t.id ∈ m.shapes.map Shape.id) :
    ∃ m', m.replace t = .ok m' ∧ m'.shapes = m.shapes.map (fun s => if s.id = t.id then t else s) ∧
      m'.metadata = m.metadata := by
  cases hreplace : m.replace t with
  | error e => exact absurd h (Model.position?_eq_none_iff.1 (Model.replace_error_iff.1 hreplace).1)
  | ok m' =>
    obtain ⟨i, hi, hreplaced⟩ := Model.replace_ok hreplace
    refine ⟨m', rfl, ?_, hreplaced.metadata⟩
    rw [hreplaced.shapes]
    -- place by place: only the one at `i` has the id
    apply List.ext_getElem
    · simp
    · intro j hj _
      have hlt : j < m.shapes.length := by simpa using hj
      have hplace : m.shapes[j].id = t.id ↔ i = j := by
        constructor
        · intro hid
          exact Option.some.inj (hi.symm.trans (Model.position?_eq_some_iff.2 ⟨hlt, hid⟩))
        · rintro rfl
          exact (Model.position?_eq_some_iff.1 hi).2
      rw [List.getElem_set, List.getElem_map]
      by_cases hij : i = j
      · rw [if_pos hij, if_pos (hplace.2 hij)]
      · rw [if_neg hij, if_neg (mt hplace.1 hij)]

theorem Model.eq_of_shapes {m m' : Model} (hshapes : m.shapes = m'.shapes) (hmetadata : m.metadata = m'.metadata) :
    m = m' := by
  obtain ⟨shapes, index, metadata, _, hindex⟩ := m
  obtain ⟨shapes', index', metadata', _, hindex'⟩ := m'
  cases hshapes
  cases hmetadata
  cases hindex
  cases hindex'
  rfl

namespace Assembly

variable {a : Assembly} {service : ShapeId} {held : List ShapeId} {holdings : List (ShapeId × List ShapeId)}

/-! ### One service -/

theorem appendNew_eq (more : List ShapeId) : ∀ xs : List ShapeId, ∃ extra, appendNew xs more = xs ++ extra ∧
    extra.Nodup ∧ ∀ x, x ∈ extra ↔ x ∈ more ∧ x ∉ xs := by
  induction more with
  | nil => exact fun xs => ⟨[], (List.append_nil xs).symm, List.nodup_nil, by simp⟩
  | cons y more ih =>
    intro xs
    have hstep : appendNew xs (y :: more) = appendNew (if xs.contains y then xs else xs ++ [y]) more := rfl
    by_cases hy : y ∈ xs
    · obtain ⟨extra, hextra, hnodup, hmem⟩ := ih xs
      refine ⟨extra, ?_, hnodup, fun x => ?_⟩
      · rw [hstep, if_pos (List.contains_iff_mem.2 hy), hextra]
      · rw [hmem, List.mem_cons]
        constructor
        · exact fun h => ⟨.inr h.1, h.2⟩
        · rintro ⟨rfl | hx, hxs⟩
          · exact absurd hy hxs
          · exact ⟨hx, hxs⟩
    · obtain ⟨extra, hextra, hnodup, hmem⟩ := ih (xs ++ [y])
      refine ⟨y :: extra, ?_, List.nodup_cons.2 ⟨fun h => ?_, hnodup⟩, fun x => ?_⟩
      · rw [hstep, if_neg (fun h => hy (List.contains_iff_mem.1 h)), hextra, List.append_assoc]
        rfl
      · exact ((hmem y).1 h).2 (List.mem_append_right _ List.mem_cons_self)
      · simp only [List.mem_cons, hmem, List.mem_append, List.not_mem_nil, or_false]
        by_cases hx : x = y
        · simp [hx, hy]
        · simp [hx]

/-- The shape with the operations, if it is the one with the id. -/
def attachAt (service : ShapeId) (ops : List ShapeId) (s : Shape) : Shape :=
  if s.id = service then s.attach ops else s

@[simp] theorem id_attachAt (service : ShapeId) (ops : List ShapeId) (s : Shape) :
    (attachAt service ops s).id = s.id := by
  unfold attachAt
  split <;> simp

@[simp] theorem attachAt_nil (service : ShapeId) : attachAt service [] = id := by
  funext s
  simp [attachAt]

theorem flatten_of_found {m : Model} {s : Shape} {ops : List ShapeId} (hs : s ∈ m.shapes) (hplain : s.id.member = none)
    (hfound : a.found s.id held = .ok ops) :
    ∃ m', flatten a.resources m s.id held = .ok m' ∧ m'.shapes = m.shapes.map (attachAt s.id ops) ∧
      m'.metadata = m.metadata := by
  have hexpect : m.expect s.id = .ok s := Model.expect_eq_ok.2 ((Model.get?_eq_self_iff hs).2 hplain)
  have hflatten : flatten a.resources m s.id held = if ops.isEmpty then .ok m else m.replace (s.attach ops) := by
    unfold flatten
    unfold found at hfound
    rw [hfound]
    dsimp only [bind, Except.bind]
    rw [hexpect]
    dsimp only
    unfold Shape.attach
    cases s.kind <;> rfl
  rw [hflatten]
  split
  · next hempty =>
    refine ⟨m, rfl, ?_, rfl⟩
    rw [List.isEmpty_iff.1 hempty, attachAt_nil, List.map_id]
  · obtain ⟨m', hreplace, hshapes, hmetadata⟩ := Model.replace_of_mem (m := m) (t := s.attach ops)
      (by simpa using ⟨s, hs, rfl⟩)
    refine ⟨m', hreplace, ?_, hmetadata⟩
    rw [hshapes]
    refine List.map_congr_left fun x hx => ?_
    rw [Shape.id_attach, attachAt]
    by_cases hid : x.id = s.id
    · rw [if_pos hid, if_pos hid, List.inj_on_of_nodup_map m.distinct hx hs hid]
    · rw [if_neg hid, if_neg hid]

theorem flatten_ids {resources : List (ShapeId × Resource)} {m m' : Model}
    (h : flatten resources m service held = .ok m') :
    m'.shapes.map Shape.id = m.shapes.map Shape.id := by
  have hreplace : ∀ s : Shape, m.replace s = .ok m' → m'.shapes.map Shape.id = m.shapes.map Shape.id := by
    intro s hs
    obtain ⟨i, hi, hreplaced⟩ := Model.replace_ok hs
    rw [hreplaced.shapes, Model.map_id_set hi]
  unfold flatten at h
  obtain ⟨extra, -, h⟩ := bind_ok_iff.1 h
  split at h
  · cases h
    rfl
  · obtain ⟨shape, -, h⟩ := bind_ok_iff.1 h
    split at h <;> exact hreplace _ h

/-- **One service** fails as its search does, and otherwise gets the operations that it finds. -/
theorem flatten_cases (a : Assembly) (held : List ShapeId) {m : Model} (hplain : service.member = none)
    (hmem : service ∈ m.shapes.map Shape.id) :
    (∃ e, a.found service held = .error e ∧ flatten a.resources m service held = .error e) ∨
    ∃ ops m', a.found service held = .ok ops ∧ flatten a.resources m service held = .ok m' ∧
      m'.shapes = m.shapes.map (attachAt service ops) ∧ m'.metadata = m.metadata := by
  obtain ⟨s, hs, rfl⟩ := List.mem_map.1 hmem
  cases hfound : a.found s.id held with
  | error e =>
    refine .inl ⟨e, rfl, ?_⟩
    unfold flatten
    unfold found at hfound
    rw [hfound]
    rfl
  | ok ops =>
    obtain ⟨m', hflatten, hshapes, hmetadata⟩ := flatten_of_found hs hplain hfound
    exact .inr ⟨ops, m', rfl, hflatten, hshapes, hmetadata⟩

/-! ### All services -/

/-- Flattens for the services in turn. -/
def flattenAll (a : Assembly) (holdings : List (ShapeId × List ShapeId)) (m : Model) : Except Error Model :=
  holdings.foldlM (fun m e => flatten a.resources m e.1 e.2) m

theorem finish_eq (a : Assembly) : a.finish = a.flattenAll a.holdings a.model := rfl

/-- What the entries make of a shape: it gets what is found with its own entry, if it has one. -/
structure Attached (a : Assembly) (holdings : List (ShapeId × List ShapeId)) (s s' : Shape) : Prop where
  held : ∀ held, (s.id, held) ∈ holdings → ∃ ops, a.found s.id held = .ok ops ∧ s' = s.attach ops
  free : (∀ held, (s.id, held) ∉ holdings) → s' = s

theorem Attached.unique {s s' s'' : Shape} (h : a.Attached holdings s s') (h' : a.Attached holdings s s'') :
    s' = s'' := by
  by_cases hexists : ∃ held, (s.id, held) ∈ holdings
  · obtain ⟨held, hmem⟩ := hexists
    obtain ⟨ops, hops, rfl⟩ := h.held held hmem
    obtain ⟨ops', hops', rfl⟩ := h'.held held hmem
    cases hops.symm.trans hops'
    rfl
  · rw [h.free (not_exists.1 hexists), h'.free (not_exists.1 hexists)]

theorem Attached.of_perm {holdings' : List (ShapeId × List ShapeId)} {s s' : Shape} (h : a.Attached holdings s s')
    (hperm : holdings'.Perm holdings) : a.Attached holdings' s s' where
  held held hmem := h.held held (hperm.mem_iff.1 hmem)
  free hnone := h.free fun held hmem => hnone held (hperm.mem_iff.2 hmem)

theorem Attached.cons {e : ShapeId × List ShapeId} {ops : List ShapeId} {s s' : Shape}
    (hnew : e.1 ∉ holdings.map Prod.fst)
    (hops : a.found e.1 e.2 = .ok ops) (h : a.Attached holdings (attachAt e.1 ops s) s') :
    a.Attached (e :: holdings) s s' := by
  obtain ⟨service, held⟩ := e
  by_cases hid : s.id = service
  · -- the other entries leave it as it is
    have hothers : ∀ held', (s.id, held') ∉ holdings := by
      intro held' hmem
      exact hnew (List.mem_map.2 ⟨_, hmem, hid⟩)
    have hs' : s' = s.attach ops := by
      have := h.free (by simpa using hothers)
      rwa [attachAt, if_pos hid] at this
    refine ⟨fun held' hmem => ?_, fun hnone => absurd List.mem_cons_self (hid ▸ hnone held)⟩
    rcases List.mem_cons.1 hmem with heq | hmem
    · cases heq
      exact ⟨ops, hops, hs'⟩
    · exact absurd hmem (hothers held')
  · rw [attachAt, if_neg hid] at h
    refine ⟨fun held' hmem => ?_, fun hnone => h.free fun held' hmem => hnone held' (List.mem_cons_of_mem _ hmem)⟩
    rcases List.mem_cons.1 hmem with heq | hmem
    · exact absurd (congrArg Prod.fst heq) hid
    · exact h.held held' hmem

/-- **All services in turn**: a search fails, or each shape gets what its own entry gives it. -/
theorem flattenAll_cases : ∀ {m : Model}, (holdings.map Prod.fst).Nodup →
    (∀ e ∈ holdings, e.1.member = none ∧ e.1 ∈ m.shapes.map Shape.id) →
    (∃ e ∈ holdings, ∃ err, a.found e.1 e.2 = .error err ∧ a.flattenAll holdings m = .error err) ∨
    ∃ m', a.flattenAll holdings m = .ok m' ∧ (∀ e ∈ holdings, ∃ ops, a.found e.1 e.2 = .ok ops) ∧
      List.Forall₂ (a.Attached holdings) m.shapes m'.shapes ∧ m'.metadata = m.metadata := by
  induction holdings with
  | nil =>
    intro m _ _
    refine .inr ⟨m, rfl, by simp, List.forall₂_same.2 fun s _ => ?_, rfl⟩
    exact ⟨fun held hmem => absurd hmem List.not_mem_nil, fun _ => rfl⟩
  | cons e holdings ih =>
    intro m hnodup hdeclared
    rw [List.map_cons, List.nodup_cons] at hnodup
    obtain ⟨hplain, hmem⟩ := hdeclared e List.mem_cons_self
    have hcons : a.flattenAll (e :: holdings) m = flatten a.resources m e.1 e.2 >>= a.flattenAll holdings := rfl
    rcases flatten_cases a e.2 hplain hmem with
      ⟨err, hfound, hflatten⟩ | ⟨ops, m₁, hfound, hflatten, hshapes, hmetadata⟩
    · refine .inl ⟨e, List.mem_cons_self, err, hfound, ?_⟩
      rw [hcons, hflatten]
      rfl
    · have hids : m₁.shapes.map Shape.id = m.shapes.map Shape.id := flatten_ids hflatten
      have hrest : a.flattenAll (e :: holdings) m = a.flattenAll holdings m₁ := by
        rw [hcons, hflatten]
        rfl
      rw [hrest]
      -- the other services are still declared, and their searches do not depend on the model
      rcases ih (m := m₁) hnodup.2 (fun e he => hids ▸ hdeclared e (List.mem_cons_of_mem _ he)) with
        ⟨e', he', herror⟩ | ⟨m', hall, hsound, hattached, hmetadata'⟩
      · exact .inl ⟨e', List.mem_cons_of_mem _ he', herror⟩
      · refine .inr ⟨m', hall, List.forall_mem_cons.2 ⟨⟨ops, hfound⟩, hsound⟩, ?_, hmetadata'.trans hmetadata⟩
        rw [hshapes, List.forall₂_map_left_iff] at hattached
        exact hattached.imp fun s s' h => h.cons hnodup.1 hfound

/-! ### What documents collect -/

theorem readKind_ne_service {id : ShapeId} {entry : ShapeEntry} {traits : Traits} {kind : Kind} (svc : Service)
    (h : readKind id entry traits = .ok kind) : kind ≠ .service svc := by
  rintro rfl
  unfold readKind at h
  split at h
  case h_8 =>
    split at h
    · obtain ⟨values, -, h⟩ := bind_ok_iff.1 h
      cases h
    · cases h
    · cases h
  all_goals simp only [bind_ok_iff, pure, Except.pure, Except.ok.injEq, reduceCtorEq, and_false, exists_false] at h

theorem readIds_text {texts : List String} {ids : List ShapeId} (h : readIds texts = .ok ids) :
    ids.map ShapeId.text = texts := by
  simpa using map_eq_of_mapM (k := fun s => s) (fun _ _ => ShapeId.text_of_read) h

end Assembly

/-- The entry of a resource: the operations bound to it are those of its instances, of its collection and of the
stages of its life. -/
structure Resource.WrittenAs (r : Resource) (entry : ShapeEntry) : Prop where
  type : entry.type = "resource"
  operations : r.operations.map ShapeId.text = entry.operations ++ entry.collectionOperations ++ entry.lifecycle
  resources : r.resources.map ShapeId.text = entry.resources

/-- One of the texts is a document with an entry for the resource. -/
def Resource.WrittenIn (r : Resource) (id : ShapeId) (texts : List String) : Prop :=
  ∃ text ∈ texts, ∃ doc entry, Document.read text = some doc ∧ (id.text, entry) ∈ doc.shapes ∧ r.WrittenAs entry

/-- What is defined as a service is one, what is defined as another shape is none, and resources are written in the
texts. -/
def Definition.Suits (texts : List String) : Definition → Prop
  | .shape s => ¬ s.IsService
  | .service s _ => s.IsService
  | .resource id r => r.WrittenIn id texts

namespace Assembly

variable {a a' : Assembly} {holdings : List (ShapeId × List ShapeId)} {texts : List String}

theorem define_suits {text key : String} {doc : Document} {entry : ShapeEntry} {d : Definition} (htext : text ∈ texts)
    (hdoc : Document.read text = some doc) (hentry : (key, entry) ∈ doc.shapes) (h : define key entry = .ok d) :
    d.Suits texts := by
  obtain ⟨id, hid, h⟩ := bind_ok_iff.1 h
  unfold readDefinition at h
  obtain ⟨traits, -, h⟩ := bind_ok_iff.1 h
  split at h
  · -- a service
    obtain ⟨held, -, h⟩ := bind_ok_iff.1 h
    obtain ⟨operations, -, h⟩ := bind_ok_iff.1 h
    obtain ⟨errors, -, h⟩ := bind_ok_iff.1 h
    cases h
    exact ⟨_, rfl⟩
  · -- a resource
    next htype =>
    obtain ⟨bound, hbound, h⟩ := bind_ok_iff.1 h
    obtain ⟨ofCollection, hofCollection, h⟩ := bind_ok_iff.1 h
    obtain ⟨lifecycle, hlifecycle, h⟩ := bind_ok_iff.1 h
    obtain ⟨resources, hresources, h⟩ := bind_ok_iff.1 h
    cases h
    have hkey : id.text = key := ShapeId.text_of_read hid
    refine ⟨text, htext, doc, entry, hdoc, hkey ▸ hentry, htype, ?_, readIds_text hresources⟩
    simp only [List.map_append]
    rw [readIds_text hbound, readIds_text hofCollection, readIds_text hlifecycle]
  · -- any other shape
    obtain ⟨kind, hkind, h⟩ := bind_ok_iff.1 h
    cases h
    rintro ⟨svc, hsvc⟩
    exact readKind_ne_service svc hkind hsvc

/-- The entries of the holdings are those of the services, one each, and the resources are written in the texts. -/
structure Collected (a : Assembly) (texts : List String) : Prop where
  keys : (a.holdings.map Prod.fst).Nodup
  declared : ∀ id ∈ a.holdings.map Prod.fst, id ∈ a.ids
  services : ∀ s ∈ a.model.shapes, s.id ∈ a.holdings.map Prod.fst ↔ s.IsService
  written : ∀ id r, a.resource? id = some r → r.WrittenIn id texts

/-- **One definition** keeps that up. -/
theorem put_collected {d : Definition} (ha : a.Collected texts) (hd : d.Suits texts) (h : a.put d = .ok a') :
    a'.Collected texts := by
  cases d with
  | shape s =>
    obtain ⟨m, hm, h⟩ := bind_ok_iff.1 h
    cases h
    obtain ⟨hnew, hadded⟩ := Model.add_ok hm
    -- the id is new, and all ids that hold something are declared
    have hfree : s.id ∉ a.holdings.map Prod.fst := fun hmem =>
      Model.position?_eq_none_iff.1 hnew (ha.declared _ hmem)
    refine ⟨ha.keys, fun id hid => ?_, fun t ht => ?_, ha.written⟩
    · rw [ids, hadded.ids]
      exact List.mem_append_left _ (ha.declared id hid)
    · rw [hadded.shapes] at ht
      rcases List.mem_append.1 ht with ht | ht
      · exact ha.services t ht
      · rw [List.mem_singleton.1 ht]
        exact iff_of_false hfree hd
  | service s held =>
    obtain ⟨m, hm, h⟩ := bind_ok_iff.1 h
    cases h
    obtain ⟨hnew, hadded⟩ := Model.add_ok hm
    have hfresh := Model.position?_eq_none_iff.1 hnew
    have hfree : s.id ∉ a.holdings.map Prod.fst := fun hmem => hfresh (ha.declared _ hmem)
    have hkeys : (a.holdings ++ [(s.id, held)]).map Prod.fst = a.holdings.map Prod.fst ++ [s.id] := by simp
    refine ⟨?_, fun id hid => ?_, fun t ht => ?_, ha.written⟩
    · rw [hkeys]
      exact ha.keys.append (List.nodup_singleton _) (by simpa using hfree)
    · rw [hkeys] at hid
      rw [ids, hadded.ids]
      rcases List.mem_append.1 hid with hid | hid
      · exact List.mem_append_left _ (ha.declared id hid)
      · exact List.mem_append_right _ hid
    · rw [hkeys]
      rw [hadded.shapes] at ht
      rcases List.mem_append.1 ht with ht | ht
      · have hne : t.id ≠ s.id := fun heq => hfresh (heq ▸ List.mem_map_of_mem ht)
        simpa [hne] using ha.services t ht
      · rw [List.mem_singleton.1 ht]
        exact iff_of_true (List.mem_append_right _ List.mem_cons_self) hd
  | resource key r =>
    cases h
    refine ⟨ha.keys, ha.declared, ha.services, fun id r' hr' => ?_⟩
    unfold resource? at hr'
    rw [resource?_insertResource] at hr'
    split at hr'
    · next hkey =>
      cases hr'
      exact hkey ▸ hd
    · exact ha.written id r' hr'

/-- **What documents collect.** -/
theorem pushAll_collected (h : pushAll texts = .ok a) : a.Collected texts := by
  have hempty : Collected {} texts := by
    refine ⟨List.nodup_nil, ?_, ?_, ?_⟩
    · rintro id ⟨⟩
    · rintro s ⟨⟩
    · rintro id r ⟨⟩
  refine foldlM_preserves (P := fun a => Collected a texts) (fun text htext b b' hb hpush => ?_) hempty h
  unfold push at hpush
  split at hpush
  · next doc hdoc =>
    unfold pushDocument at hpush
    obtain ⟨c, hc, hpush⟩ := bind_ok_iff.1 hpush
    have hmerged : c.Collected texts := by
      rw [mergeMetadata_foldlM] at hc
      obtain ⟨o, -, rfl⟩ := map_ok_iff.1 hc
      exact ⟨hb.keys, hb.declared, hb.services, hb.written⟩
    refine foldlM_preserves (P := fun a => Collected a texts) (fun e he d d' hd hstep => ?_) hmerged hpush
    obtain ⟨definition, hdefine, hput⟩ := bind_ok_iff.1 hstep
    exact put_collected hd (define_suits htext hdoc he hdefine) hput
  · cases hpush

/-! ### The result -/

/-- What becomes of a shape: a service has its operations, and then those that are bound to resources which it leads to
and are not among its own, each once; any other shape stays as it is. -/
inductive Flattened (a : Assembly) : Shape → Shape → Prop
  | service {s : Shape} {svc : Service} {held extra : List ShapeId} :
      s.kind = .service svc → (s.id, held) ∈ a.holdings → extra.Nodup →
      (∀ op, op ∈ extra ↔ a.Binds held op ∧ op ∉ svc.operations) →
      Flattened a s { s with kind := .service { svc with operations := svc.operations ++ extra } }
  | other {s : Shape} : ¬ s.IsService → Flattened a s s

theorem Collected.flattened {s s' : Shape} (ha : a.Collected texts) (hs : s ∈ a.model.shapes)
    (h : a.Attached a.holdings s s') : a.Flattened s s' := by
  by_cases hservice : s.IsService
  · obtain ⟨e, he, hid⟩ := List.mem_map.1 ((ha.services s hs).2 hservice)
    obtain ⟨svc, hsvc⟩ := hservice
    have hmem : (s.id, e.2) ∈ a.holdings := hid ▸ he
    obtain ⟨ops, hops, rfl⟩ := h.held e.2 hmem
    rcases found_cases a s.id e.2 with ⟨id, -, -, herror⟩ | ⟨ops', hops', -, hbinds⟩
    · cases hops.symm.trans herror
    · cases hops.symm.trans hops'
      obtain ⟨extra, hextra, hnodup, hnew⟩ := appendNew_eq ops svc.operations
      have hattach : s.attach ops =
          { s with kind := .service { svc with operations := svc.operations ++ extra } } := by
        unfold Shape.attach
        rw [hsvc, ← hextra]
      rw [hattach]
      exact .service hsvc hmem hnodup fun op => by rw [hnew, hbinds]
  · have hnone : ∀ held, (s.id, held) ∉ a.holdings := fun held hmem =>
      hservice ((ha.services s hs).1 (List.mem_map_of_mem (f := Prod.fst) hmem))
    rw [h.free hnone]
    exact .other hservice

theorem Collected.flattenAll_cases {holdings' : List (ShapeId × List ShapeId)} (ha : a.Collected texts)
    (hplain : ∀ e ∈ a.holdings, e.1.member = none) (hperm : holdings'.Perm a.holdings) :
    (∃ e ∈ a.holdings, ∃ err, a.found e.1 e.2 = .error err ∧ a.flattenAll holdings' a.model = .error err) ∨
    ∃ m, a.flattenAll holdings' a.model = .ok m ∧ (∀ e ∈ a.holdings, ∃ ops, a.found e.1 e.2 = .ok ops) ∧
      List.Forall₂ (a.Attached a.holdings) a.model.shapes m.shapes ∧ m.metadata = a.model.metadata := by
  have hkeys : (holdings'.map Prod.fst).Nodup := (hperm.map Prod.fst).nodup_iff.2 ha.keys
  have hdeclared : ∀ e ∈ holdings', e.1.member = none ∧ e.1 ∈ a.model.shapes.map Shape.id := by
    intro e he
    have hmem := hperm.mem_iff.1 he
    exact ⟨hplain e hmem, ha.declared e.1 (List.mem_map_of_mem hmem)⟩
  rcases Assembly.flattenAll_cases (a := a) hkeys hdeclared with ⟨e, he, herror⟩ | ⟨m, hm, hsound, hattached, hmetadata⟩
  · exact .inl ⟨e, hperm.mem_iff.1 he, herror⟩
  · exact .inr ⟨m, hm, fun e he => hsound e (hperm.mem_iff.2 he),
      hattached.imp fun s s' h => h.of_perm hperm.symm, hmetadata⟩

theorem Collected.flattenAll_perm {holdings' : List (ShapeId × List ShapeId)} (ha : a.Collected texts)
    (hplain : ∀ e ∈ a.holdings, e.1.member = none) (hperm : holdings'.Perm a.holdings) :
    (a.flattenAll holdings' a.model).toOption = a.finish.toOption := by
  rw [finish_eq]
  rcases ha.flattenAll_cases hplain hperm with
    ⟨e', he', err', herr', hall'⟩ | ⟨m', hall', hsound', hattached', hmetadata'⟩ <;>
    rcases ha.flattenAll_cases hplain (.refl _) with
      ⟨e, he, err, herr, hall⟩ | ⟨m, hall, hsound, hattached, hmetadata⟩ <;>
    rw [hall', hall]
  · rfl
  · obtain ⟨ops, hops⟩ := hsound e' he'
    cases hops.symm.trans herr'
  · obtain ⟨ops, hops⟩ := hsound' e he
    cases hops.symm.trans herr
  · have hunique : Relator.RightUnique (a.Attached a.holdings) := fun _ _ _ h h' => h.unique h'
    have hshapes : m'.shapes = m.shapes := hunique.forall₂ hattached' hattached
    rw [Model.eq_of_shapes hshapes (hmetadata'.trans hmetadata.symm)]

/-- **How resources are flattened into services.** For documents that have been merged, with services under ids without
a member part:
1. each resource is one that a document has an entry for, with the operations of its instances, of its collection and of
   the stages of its life;
2. the search of every service ends, and has the outcome that the service is flattened with;
3. it fails if and only if some service leads to an id without a resource, and always as an invalid model, with such a
   service and id;
4. otherwise each service has its operations and after them, each once, those that are bound to resources which it leads
   to and are not among its own; all other shapes and the metadata stay as they are;
5. whether it succeeds, and with which model, does not depend on the order of the services. -/
theorem finish_flattens (h : pushAll texts = .ok a) (hplain : ∀ e ∈ a.holdings, e.1.member = none) :
    (∀ id r, a.resource? id = some r → r.WrittenIn id texts) ∧
    (∀ e ∈ a.holdings, ∃ out, a.Search e.2.reverse [] out ∧
      a.found e.1 e.2 = out.mapError fun id => .invalidModel (.unknownResource e.1 id)) ∧
    ((∃ cause, a.finish = .error (.invalidModel cause)) ↔
      ∃ e ∈ a.holdings, ∃ id, a.Leads e.2 id ∧ a.resource? id = none) ∧
    (∀ err, a.finish = .error err → ∃ e ∈ a.holdings, ∃ id, a.Leads e.2 id ∧ a.resource? id = none ∧
      err = .invalidModel (.unknownResource e.1 id)) ∧
    (∀ m, a.finish = .ok m → List.Forall₂ a.Flattened a.model.shapes m.shapes ∧ m.metadata = a.model.metadata) ∧
    (∀ holdings : List (ShapeId × List ShapeId), holdings.Perm a.holdings →
      ({ a with holdings := holdings } : Assembly).finish.toOption = a.finish.toOption) := by
  have ha := pushAll_collected h
  have hcases := ha.flattenAll_cases hplain (.refl _)
  rw [← finish_eq] at hcases
  have herror : ∀ err, a.finish = .error err → ∃ e ∈ a.holdings, ∃ id, a.Leads e.2 id ∧ a.resource? id = none ∧
      err = .invalidModel (.unknownResource e.1 id) := by
    intro err herr
    rcases hcases with ⟨e, he, err', hfound, hfinish⟩ | ⟨m, hm, -⟩
    · cases herr.symm.trans hfinish
      rcases found_cases a e.1 e.2 with ⟨id, hled, hnone, hfound'⟩ | ⟨ops, hops, -⟩
      · cases hfound.symm.trans hfound'
        exact ⟨e, he, id, hled, hnone, rfl⟩
      · cases hfound.symm.trans hops
    · cases herr.symm.trans hm
  refine ⟨ha.written, fun e _ => ?_, ⟨?_, fun hmissing => ?_⟩, herror, fun m hm => ?_, fun holdings hperm => ?_⟩
  · exact boundOperations_search e.1 _ _ _ List.nodup_nil (by simp) (by simp)
  · rintro ⟨cause, hcause⟩
    obtain ⟨e, he, id, hled, hnone, -⟩ := herror _ hcause
    exact ⟨e, he, id, hled, hnone⟩
  · rcases hcases with ⟨e, he, err, hfound, hfinish⟩ | ⟨m, -, hsound, -⟩
    · obtain ⟨e', -, id, -, -, rfl⟩ := herror err hfinish
      exact ⟨_, hfinish⟩
    · obtain ⟨e, he, id, hled, hnone⟩ := hmissing
      obtain ⟨ops, hops⟩ := hsound e he
      rcases found_cases a e.1 e.2 with ⟨_, -, -, hfound⟩ | ⟨_, -, hdefined, -⟩
      · cases hops.symm.trans hfound
      · exact absurd hnone (hdefined id hled)
  · rcases hcases with ⟨e, he, err, -, hfinish⟩ | ⟨m', hm', -, hattached, hmetadata⟩
    · cases hm.symm.trans hfinish
    · cases hm.symm.trans hm'
      refine ⟨?_, hmetadata⟩
      rw [List.forall₂_iff_get] at hattached ⊢
      exact ⟨hattached.1, fun i hi hi' => ha.flattened (List.get_mem _ _) (hattached.2 i hi hi')⟩
  · exact ha.flattenAll_perm hplain hperm

/-- A resource that is nested in itself. -/
def nestedText : String :=
  "\x7b\"shapes\":\x7b\"ex#R\":\x7b\"type\":\"resource\",\"read\":\x7b\"target\":\"ex#G\"\x7d,\"operations\":[\x7b\"target\":\"ex#P\"\x7d],\"resources\":[\x7b\"target\":\"ex#R\"\x7d]\x7d\x7d\x7d"

/-- A service that holds it, and has one of its operations. -/
def holderText : String :=
  "\x7b\"shapes\":\x7b\"ex#W\":\x7b\"type\":\"service\",\"operations\":[\x7b\"target\":\"ex#P\"\x7d],\"resources\":[\x7b\"target\":\"ex#R\"\x7d]\x7d\x7d\x7d"

/-- The service, with operations. -/
def holder (operations : List ShapeId) : Model where
  shapes := [{ id := ⟨"ex", "W", none⟩, kind := .service { version := none, operations, errors := [] } }]
  distinct := List.nodup_singleton _

def nestedAssembly : Assembly where
  model := holder [⟨"ex", "P", none⟩]
  resources := [(⟨"ex", "R", none⟩, ⟨[⟨"ex", "P", none⟩, ⟨"ex", "G", none⟩], [⟨"ex", "R", none⟩]⟩)]
  holdings := [(⟨"ex", "W", none⟩, [⟨"ex", "R", none⟩])]

/-- The service gets the operation that it has not, and leads to no id without a resource. -/
theorem finish_flattens_nested : pushAll [nestedText, holderText] = .ok nestedAssembly ∧
    ∃ m, nestedAssembly.finish = .ok m ∧ m = holder [⟨"ex", "P", none⟩, ⟨"ex", "G", none⟩] ∧
      List.Forall₂ nestedAssembly.Flattened nestedAssembly.model.shapes m.shapes ∧
      ¬ ∃ e ∈ nestedAssembly.holdings, ∃ id, nestedAssembly.Leads e.2 id ∧ nestedAssembly.resource? id = none := by
  have hload : pushAll [nestedText, holderText] = .ok nestedAssembly := by cbv
  have hfinish : nestedAssembly.finish = .ok (holder [⟨"ex", "P", none⟩, ⟨"ex", "G", none⟩]) := by
    with_unfolding_all rfl
  obtain ⟨-, -, hfails, -, hflat, -⟩ := finish_flattens hload (by simp [nestedAssembly])
  refine ⟨hload, _, hfinish, rfl, (hflat _ hfinish).1, fun hmissing => ?_⟩
  obtain ⟨cause, hcause⟩ := hfails.2 hmissing
  cases hfinish.symm.trans hcause

end Assembly

end ClientGen
