import ClientGen.Model.Document
import ClientGen.Proofs.Dictionary
import ClientGen.Proofs.Outcome

/-!
# The keys of a document

A document may repeat keys as text. What is read from it has each key once.

* `Json.Raw.object?_nodup`: an object has each key once.
* `Document.read_keyed`: so have the shapes of a document, in ascending order, and the members of each shape.
-/

namespace ClientGen

namespace Json

theorem Object.get?_eq_none_iff {o : Object} {key : String} : o.get? key = none ↔ key ∉ o.map Prod.fst := by
  unfold Object.get?
  rw [Option.map_eq_none_iff, List.find?_eq_none]
  constructor
  · intro h hmem
    obtain ⟨e, he, rfl⟩ := List.mem_map.1 hmem
    exact h e he (beq_self_eq_true _)
  · intro h e he heq
    exact h (List.mem_map.2 ⟨e, he, eq_of_beq heq⟩)

/-- **An object has each key once**, however often the text has it. -/
theorem Raw.object?_nodup {room : Nat} : ∀ {members : List (Option String × Raw)} {o : Object},
    Raw.object? room members = some o → (o.map Prod.fst).Nodup := by
  intro members
  induction members with
  | nil =>
    rintro o ⟨⟩
    exact List.nodup_nil
  | cons member rest ih =>
    intro o h
    obtain ⟨key, part⟩ := member
    rw [Raw.object?] at h
    obtain ⟨k, -, h⟩ := Option.bind_eq_some_iff.1 h
    obtain ⟨v, -, h⟩ := Option.bind_eq_some_iff.1 h
    obtain ⟨others, hothers, h⟩ := Option.bind_eq_some_iff.1 h
    have hnodup := ih hothers
    split at h
    · cases h
      rw [List.map_cons, List.nodup_cons]
      refine ⟨fun hmem => ?_, hnodup.sublist (List.filter_sublist.map _)⟩
      obtain ⟨e, he, heq⟩ := List.mem_map.1 hmem
      have hne := (List.mem_filter.1 he).2
      simp [heq] at hne
    · rename_i hnone
      cases h
      exact List.nodup_cons.2 ⟨Object.get?_eq_none_iff.1 hnone, hnodup⟩

theorem NumberLiteral.value_ne_obj {l : NumberLiteral} {o : Object} : l.value ≠ some (.obj o) := by
  unfold NumberLiteral.value
  dsimp only
  split
  · split
    · simp
    · split <;> simp
  · simp
  · simp

theorem Raw.value?_nodup {room : Nat} {part : Raw} {o : Object} (h : part.value? room = some (.obj o)) :
    (o.map Prod.fst).Nodup := by
  cases part with
  | object members =>
    unfold Raw.value? at h
    split at h
    · cases h
    · obtain ⟨o', ho', heq⟩ := Option.map_eq_some_iff.1 h
      cases heq
      exact object?_nodup ho'
  | number l => exact absurd h NumberLiteral.value_ne_obj
  | null | bool b =>
    unfold Raw.value? at h
    cases h
  | string s =>
    unfold Raw.value? at h
    obtain ⟨t, -, heq⟩ := Option.map_eq_some_iff.1 h
    cases heq
  | array items =>
    unfold Raw.value? at h
    split at h
    · cases h
    · obtain ⟨vs, -, heq⟩ := Option.map_eq_some_iff.1 h
      cases heq

end Json

/-- The members of the shape have different names. -/
def ShapeEntry.Keyed (e : ShapeEntry) : Prop := ∀ members, e.members = some members → (members.map Prod.fst).Nodup

namespace Document

open Json (Raw)

/-- The keys of the shapes ascend, and the members of each shape have different names. -/
structure Keyed (d : Document) : Prop where
  shapes : Dictionary.Ascending d.shapes
  members : ∀ e ∈ d.shapes, e.2.Keyed

theorem object_nodup {room : Nat} {field : Option Raw} {o : Json.Object} (h : object room field = some o) :
    (o.map Prod.fst).Nodup := by
  unfold object at h
  split at h
  · cases h
    exact List.nodup_nil
  · split at h
    · rename_i hvalue
      cases h
      exact Raw.value?_nodup hvalue
    · cases h

theorem optionalObject_nodup {room : Nat} {field : Option Raw} {found : Option Json.Object}
    (h : optionalObject room field = some found) : ∀ o, found = some o → (o.map Prod.fst).Nodup := by
  rintro o rfl
  unfold optionalObject at h
  split at h
  · cases h
  · cases h
  · obtain ⟨o', ho', heq⟩ := Option.map_eq_some_iff.1 h
    cases heq
    exact object_nodup ho'

theorem shapeEntry_keyed {room : Nat} {part : Raw} {e : ShapeEntry} (h : shapeEntry room part = some e) : e.Keyed := by
  unfold shapeEntry at h
  obtain ⟨⟨inner, fields⟩, -, h⟩ := Option.bind_eq_some_iff.1 h
  dsimp only at h
  obtain ⟨lifecycle, -, h⟩ := Option.bind_eq_some_iff.1 h
  obtain ⟨type, -, h⟩ := Option.bind_eq_some_iff.1 h
  obtain ⟨traits, -, h⟩ := Option.bind_eq_some_iff.1 h
  obtain ⟨members, hmembers, h⟩ := Option.bind_eq_some_iff.1 h
  -- the ten fields after the members do not matter here
  have heq : e.members = members := by
    iterate 10
      obtain ⟨_, -, h⟩ := Option.bind_eq_some_iff.1 h
    cases h
    rfl
  intro o ho
  exact optionalObject_nodup hmembers o (heq ▸ ho)

theorem keyed_insert {d : Document} {key : String} {e : ShapeEntry} (h : d.Keyed) (he : e.Keyed) :
    Keyed { d with shapes := Dictionary.insert key e d.shapes } where
  shapes := Dictionary.insert_ascending key e h.shapes
  members x hx := by
    rcases Dictionary.mem_insert hx with ⟨-, hvalue⟩ | hx
    · rw [hvalue]
      exact he
    · exact h.members x hx

theorem keyed_foldl {entries : List (String × ShapeEntry)} (he : ∀ e ∈ entries, e.2.Keyed) :
    ∀ {shapes : Dictionary String ShapeEntry}, Keyed { shapes } →
      Keyed { shapes := entries.foldl (fun acc (key, entry) => Dictionary.insert key entry acc) shapes } := by
  induction entries with
  | nil => exact id
  | cons entry rest ih =>
    intro shapes h
    exact ih (fun e hmem => he e (List.mem_cons_of_mem _ hmem)) (keyed_insert h (he entry List.mem_cons_self))

theorem shapeEntries_keyed {room : Nat} {field : Option Raw} {shapes : Dictionary String ShapeEntry}
    (h : shapeEntries room field = some shapes) : Keyed { shapes } := by
  have hnil : Keyed {} := ⟨List.Pairwise.nil, fun e he => absurd he List.not_mem_nil⟩
  unfold shapeEntries at h
  split at h
  · cases h
    exact hnil
  · split at h
    · cases h
    · obtain ⟨entries, hentries, h⟩ := Option.bind_eq_some_iff.1 h
      cases h
      refine keyed_foldl (fun e he => ?_) hnil
      obtain ⟨⟨key, part⟩, -, hread⟩ := exists_of_mem_mapM_some hentries he
      obtain ⟨k, -, hread⟩ := Option.bind_eq_some_iff.1 hread
      obtain ⟨entry, hentry, hread⟩ := Option.bind_eq_some_iff.1 hread
      cases hread
      exact shapeEntry_keyed hentry
  · cases h

/-- **What is read has each key once**, that of a shape and that of a member. -/
theorem read_keyed {s : String} {d : Document} (h : read s = some d) : d.Keyed := by
  unfold read at h
  obtain ⟨part, -, h⟩ := Option.bind_eq_some_iff.1 h
  obtain ⟨⟨room, fields⟩, -, h⟩ := Option.bind_eq_some_iff.1 h
  obtain ⟨metadata, -, h⟩ := Option.bind_eq_some_iff.1 h
  obtain ⟨shapes, hshapes, h⟩ := Option.bind_eq_some_iff.1 h
  cases h
  have hkeyed := shapeEntries_keyed hshapes
  exact ⟨hkeyed.shapes, hkeyed.members⟩

end Document

end ClientGen
