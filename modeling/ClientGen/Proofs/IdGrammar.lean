import ClientGen.Error
import ClientGen.Proofs.IdText
import Mathlib

/-!
# The grammar of ids

An id is written `ns#Name` or `ns#Name$member`. Name and member are identifiers, `[A-Za-z_][A-Za-z0-9_]*`, and the
namespace is a list of them with dots between, at least one.

* `ShapeId.spelled_iff`: the checks on the parts of an id ask for exactly such parts.
* `ShapeId.read_grammar`: reading accepts exactly the texts of the grammar, gives back the id with the same
  parts, and no text can be cut into parts in two ways.
-/

namespace ClientGen

namespace Text

/-- One of `[A-Za-z_]`. -/
def Opens (c : Char) : Prop := 'A' ≤ c ∧ c ≤ 'Z' ∨ 'a' ≤ c ∧ c ≤ 'z' ∨ c = '_'

/-- One of `[A-Za-z0-9_]`. -/
def Continues (c : Char) : Prop := Opens c ∨ '0' ≤ c ∧ c ≤ '9'

theorem isIdentifierHead_iff {c : Char} : isIdentifierHead c = true ↔ Opens c := by
  simp only [isIdentifierHead, Char.isAlpha, Char.isUpper, Char.isLower, Bool.or_eq_true, Bool.and_eq_true,
    decide_eq_true_eq, beq_iff_eq, or_assoc]
  rfl

theorem isIdentifierTail_iff {c : Char} : isIdentifierTail c = true ↔ Continues c := by
  have hhead := isIdentifierHead_iff (c := c)
  simp only [isIdentifierHead, Bool.or_eq_true] at hhead
  have hdigit : c.isDigit = true ↔ '0' ≤ c ∧ c ≤ '9' := by
    simp only [Char.isDigit, Bool.and_eq_true, decide_eq_true_eq]
    rfl
  simp only [isIdentifierTail, Continues, Bool.or_eq_true, ← hhead, hdigit]
  tauto

end Text

/-- A name in the grammar of ids. -/
structure Identifier where
  first : Char
  rest : List Char
  opens : Text.Opens first
  continues : ∀ c ∈ rest, Text.Continues c

namespace Identifier

def chars (i : Identifier) : List Char := i.first :: i.rest

def text (i : Identifier) : String := String.ofList i.chars

@[simp] theorem toList_text (i : Identifier) : i.text.toList = i.chars := String.toList_ofList

theorem chars_injective : Function.Injective chars := by
  rintro ⟨c, rest, _, _⟩ ⟨c', rest', _, _⟩ h
  obtain ⟨rfl, rfl⟩ := List.cons.inj h
  rfl

theorem text_injective : Function.Injective text :=
  fun _ _ h => chars_injective (String.ofList_injective h)

/-- **The check on identifiers** accepts exactly the texts of identifiers. -/
theorem isIdentifier_iff {cs : List Char} : Text.isIdentifier cs = true ↔ ∃ i : Identifier, i.chars = cs := by
  cases cs with
  | nil => simp [Text.isIdentifier, chars]
  | cons c rest =>
    simp only [Text.isIdentifier, Bool.and_eq_true, List.all_eq_true, Text.isIdentifierHead_iff,
      Text.isIdentifierTail_iff]
    constructor
    · rintro ⟨hopens, hcontinues⟩
      exact ⟨⟨c, rest, hopens, hcontinues⟩, rfl⟩
    · rintro ⟨i, hi⟩
      obtain ⟨rfl, rfl⟩ := List.cons.inj hi
      exact ⟨i.opens, i.continues⟩

theorem isIdentifier_text_iff {s : String} : Text.isIdentifier s.toList = true ↔ ∃ i : Identifier, i.text = s := by
  simp only [isIdentifier_iff, ← String.toList_inj, toList_text]

theorem no_dot (i : Identifier) : '.' ∉ i.chars := fun hmem =>
  absurd (Text.isIdentifierTail_of_mem (isIdentifier_iff.2 ⟨i, rfl⟩) hmem) (by decide)

theorem toList_dotted (segments : List Identifier) :
    (".".intercalate (segments.map text)).toList = ['.'].intercalate (segments.map chars) := by
  rw [String.toList_intercalate, List.map_map]
  simp [Function.comp_def]

theorem pieces_dotted {segments : List Identifier} (h : segments ≠ []) :
    Text.pieces '.' (".".intercalate (segments.map text)).toList = segments.map chars := by
  rw [Text.pieces_eq_splitOn, toList_dotted]
  apply List.splitOn_intercalate
  · intro cs hcs
    obtain ⟨i, -, rfl⟩ := List.mem_map.1 hcs
    exact i.no_dot
  · simpa using h

end Identifier

/-- The parts of an id, as the grammar has them. -/
@[ext]
structure IdParts where
  /-- What stands between the dots of the namespace. -/
  segments : List Identifier
  name : Identifier
  member : Option Identifier
  segments_ne_nil : segments ≠ []

namespace IdParts

def ns (p : IdParts) : String := ".".intercalate (p.segments.map Identifier.text)

/-- The text `ns#Name` or `ns#Name$member`. -/
def text (p : IdParts) : String :=
  p.ns ++ "#" ++ p.name.text ++ (p.member.map fun m => "$" ++ m.text).getD ""

/-- The id with these parts. -/
def id (p : IdParts) : ShapeId := { ns := p.ns, name := p.name.text, member := p.member.map Identifier.text }

theorem text_id (p : IdParts) : p.id.text = p.text := by
  unfold ShapeId.text text id
  cases p.member <;> simp [String.append_assoc]

theorem id_injective : Function.Injective id := by
  intro p q h
  have hns : p.ns = q.ns := congrArg ShapeId.ns h
  have hname : p.name.text = q.name.text := congrArg ShapeId.name h
  have hmember : p.member.map Identifier.text = q.member.map Identifier.text := congrArg ShapeId.member h
  have hsegments : p.segments.map Identifier.chars = q.segments.map Identifier.chars := by
    rw [← Identifier.pieces_dotted p.segments_ne_nil, ← Identifier.pieces_dotted q.segments_ne_nil]
    exact congrArg (fun s => Text.pieces '.' s.toList) hns
  ext1
  · exact Identifier.chars_injective.list_map hsegments
  · exact Identifier.text_injective hname
  · exact Option.map_injective Identifier.text_injective hmember

end IdParts

namespace ShapeId

theorem isNamespace_iff {s : String} :
    isNamespace s.toList = true ↔ ∃ segments : List Identifier, segments ≠ [] ∧
      ".".intercalate (segments.map Identifier.text) = s := by
  constructor
  · intro h
    -- every piece between dots is an identifier, and the text is the pieces with the dots put back
    have hpieces : Text.pieces '.' s.toList ∈ Set.range (List.map Identifier.chars) := by
      rw [Set.range_list_map]
      exact fun piece hpiece => Identifier.isIdentifier_iff.1 (List.all_eq_true.1 h piece hpiece)
    obtain ⟨segments, hsegments⟩ := hpieces
    refine ⟨segments, ?_, ?_⟩
    · rintro rfl
      exact Text.pieces_ne_nil '.' s.toList hsegments.symm
    · rw [← String.toList_inj, Identifier.toList_dotted, hsegments, Text.pieces_eq_splitOn]
      exact List.intercalate_splitOn '.'
  · rintro ⟨segments, hne, rfl⟩
    rw [isNamespace, Identifier.pieces_dotted hne, List.all_map, List.all_eq_true]
    exact fun i _ => Identifier.isIdentifier_iff.2 ⟨i, rfl⟩

/-- **The checks on an id** ask for exactly the parts of the grammar. -/
theorem spelled_iff {id : ShapeId} : id.Spelled ↔ ∃ p : IdParts, p.id = id := by
  constructor
  · rintro ⟨hns, hname, hmember⟩
    obtain ⟨segments, hne, hns⟩ := isNamespace_iff.1 hns
    obtain ⟨name, hname⟩ := Identifier.isIdentifier_text_iff.1 hname
    obtain ⟨member, hmember⟩ : ∃ member : Option Identifier, member.map Identifier.text = id.member := by
      cases hm : id.member with
      | none => exact ⟨none, rfl⟩
      | some m =>
        obtain ⟨i, hi⟩ := Identifier.isIdentifier_text_iff.1 (hmember m hm)
        exact ⟨some i, congrArg some hi⟩
    refine ⟨⟨segments, name, member, hne⟩, ?_⟩
    unfold IdParts.id IdParts.ns
    rw [hns, hname, hmember]
  · rintro ⟨p, rfl⟩
    refine ⟨isNamespace_iff.2 ⟨p.segments, p.segments_ne_nil, rfl⟩,
      Identifier.isIdentifier_text_iff.2 ⟨p.name, rfl⟩, ?_⟩
    rintro m hm
    obtain ⟨i, -, rfl⟩ := Option.map_eq_some_iff.1 hm
    exact Identifier.isIdentifier_text_iff.2 ⟨i, rfl⟩

theorem parse?_eq_some_iff_parts {s : String} {id : ShapeId} :
    parse? s = some id ↔ ∃ p : IdParts, p.id = id ∧ p.text = s := by
  rw [parse?_eq_some_iff, spelled_iff]
  constructor
  · rintro ⟨⟨p, rfl⟩, rfl⟩
    exact ⟨p, rfl, p.text_id.symm⟩
  · rintro ⟨p, rfl, rfl⟩
    exact ⟨⟨p, rfl⟩, p.text_id⟩

theorem read_eq_ok_iff {s : String} {id : ShapeId} : read s = .ok id ↔ parse? s = some id := by
  unfold read
  cases parse? s <;> simp

theorem text_of_read {s : String} {id : ShapeId} (h : read s = .ok id) : id.text = s :=
  (parse?_eq_some_iff.1 (read_eq_ok_iff.1 h)).2

/-- **Ids are read by the grammar.**
1. A text is accepted if and only if it is that of parts of the grammar, and is refused as an invalid id otherwise.
2. An id that is read has the text that it was read from.
3. For all parts, the text of the id with these parts is the one in the grammar, and is read as that id.
4. No text has two ways of being cut into parts. -/
theorem read_grammar (s : String) :
    ((∃ id, read s = .ok id) ↔ ∃ p : IdParts, p.text = s) ∧
    (read s = .error (.invalidShapeId s) ↔ ¬ ∃ p : IdParts, p.text = s) ∧
    (∀ id, read s = .ok id → id.text = s) ∧
    (∀ p : IdParts, p.id.text = p.text ∧ read p.id.text = .ok p.id) ∧
    Function.Injective IdParts.text := by
  have hread : ∀ p : IdParts, parse? p.text = some p.id := fun p => parse?_eq_some_iff_parts.2 ⟨p, rfl, rfl⟩
  have haccepts : (∃ id, read s = .ok id) ↔ ∃ p : IdParts, p.text = s := by
    simp only [read_eq_ok_iff, parse?_eq_some_iff_parts]
    constructor
    · rintro ⟨-, p, -, hp⟩
      exact ⟨p, hp⟩
    · rintro ⟨p, hp⟩
      exact ⟨p.id, p, rfl, hp⟩
  refine ⟨haccepts, ?_, fun id => text_of_read, fun p => ⟨p.text_id, ?_⟩, fun p q h => ?_⟩
  · rw [← haccepts]
    unfold read
    cases parse? s <;> simp
  · rw [p.text_id]
    exact read_eq_ok_iff.2 (hread p)
  · have hid : some p.id = some q.id := by rw [← hread p, ← hread q, h]
    exact IdParts.id_injective (Option.some.inj hid)

example : read "example.weather#City$name" = .ok ⟨"example.weather", "City", some "name"⟩ := by
  with_unfolding_all rfl

example : read "example..weather#City" = .error (.invalidShapeId "example..weather#City") := by
  with_unfolding_all rfl

end ShapeId

end ClientGen
