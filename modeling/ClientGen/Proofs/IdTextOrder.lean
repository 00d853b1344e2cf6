import ClientGen.Proofs.ResourceFlattening
import Mathlib.Order.Compare

/-!
# The order of ids and of their texts

Ids compare by namespace, name and member, texts by their bytes. Both orders are the same for ids that are read from
texts: a hash ends the namespace and a dollar sign the name, and both signs are below every character that may stand in
the part before.

* `Text.compare_bytes`: texts compare by their characters as by their bytes.
* `Text.compare_append`: texts compare by their first parts, and then by the rest, if the rest is below the first parts.
* `ShapeId.compare_text`: ids compare as their texts do.
* `ShapeId.ordered_by_text`: this for the ids that can be read, and the order of the shapes of a loaded document.
-/

namespace ClientGen

theorem compare_eq_of_lt_iff {α β : Type} [Ord α] [Ord β] [Std.OrientedOrd α] [Std.OrientedOrd β] {f : α → β}
    (h : ∀ x y, compare (f x) (f y) = .lt ↔ compare x y = .lt) (x y : α) : compare (f x) (f y) = compare x y := by
  cases hxy : compare x y with
  | lt => exact (h x y).2 hxy
  | gt => exact Std.OrientedCmp.gt_of_lt ((h y x).2 (Std.OrientedCmp.lt_of_gt hxy))
  | eq =>
    have hyx : compare y x = .eq := Std.OrientedCmp.eq_symm hxy
    cases hf : compare (f x) (f y) with
    | eq => rfl
    | lt => rw [(h x y).1 hf] at hxy; cases hxy
    | gt => rw [(h y x).1 (Std.OrientedCmp.lt_of_gt hf)] at hyx; cases hyx

namespace Text

/-! ### Texts and their bytes -/

/-- The bytes of a text in UTF-8. -/
def bytes (s : String) : List UInt8 := s.toUTF8.data.toList

theorem bytes_eq (s : String) : bytes s = s.toList.flatMap String.utf8EncodeChar := by
  have h : s.toUTF8 = s.toList.utf8Encode := String.utf8Encode_toList.symm
  rw [bytes, h, List.utf8Encode, List.toList_data_toByteArray]

theorem compare_chars_lt_iff {xs ys : List Char} : compare xs ys = .lt ↔ xs < ys := by
  induction xs generalizing ys with
  | nil => cases ys <;> simp
  | cons x xs ih =>
    cases ys with
    | nil => simp
    | cons y ys =>
      rw [List.compare_cons_cons, Ordering.then_eq_lt, ih, List.cons_lt_cons_iff, compare_lt_iff_lt, compare_eq_iff_eq]

theorem compare_toList (s t : String) : compare s.toList t.toList = compare s t :=
  compare_eq_of_lt_iff (fun s t => by rw [compare_chars_lt_iff, compare_lt_iff_lt, String.lt_iff_toList_lt]) s t

theorem compare_append_self {α : Type} [Ord α] [Std.ReflOrd α] (xs us vs : List α) :
    compare (xs ++ us) (xs ++ vs) = compare us vs := by
  induction xs with
  | nil => rfl
  | cons x xs ih => rw [List.cons_append, List.cons_append, List.compare_cons_cons, Std.ReflOrd.compare_self]; exact ih

theorem compare_ofNat_lt_iff {m n : Nat} (hm : m < 256) (hn : n < 256) :
    compare (UInt8.ofNat m) (UInt8.ofNat n) = .lt ↔ m < n := by
  rw [Std.compare_eq_lt, UInt8.lt_iff_toNat_lt, UInt8.toNat_ofNat_of_lt' hm, UInt8.toNat_ofNat_of_lt' hn]

theorem compare_ofNat_eq_iff {m n : Nat} (hm : m < 256) (hn : n < 256) :
    compare (UInt8.ofNat m) (UInt8.ofNat n) = .eq ↔ m = n := by
  rw [Std.LawfulEqOrd.compare_eq_iff_eq, ← UInt8.toNat_inj, UInt8.toNat_ofNat_of_lt' hm, UInt8.toNat_ofNat_of_lt' hn]

theorem compare_utf8EncodeChar_of_lt {c d : Char} (h : c < d) (us vs : List UInt8) :
    compare (String.utf8EncodeChar c ++ us) (String.utf8EncodeChar d ++ vs) = .lt := by
  have hcd : c.val.toNat < d.val.toNat := h
  have hd : d.val.toNat < 0x110000 := by
    have := d.valid
    unfold UInt32.isValidChar Nat.isValidChar at this
    omega
  generalize hm : c.val.toNat = m at *
  generalize hn : d.val.toNat = n at *
  have h12 : ∀ k, k / 4096 = k / 64 / 64 := fun k => (Nat.div_div_eq_div_mul k 64 64).symm
  have h18 : ∀ k, k / 262144 = k / 64 / 64 / 64 := fun k => by
    rw [Nat.div_div_eq_div_mul, Nat.div_div_eq_div_mul]
  unfold String.utf8EncodeChar
  rw [hm, hn]
  dsimp only
  -- shorter encodings begin with smaller bytes, and those of one length differ in a digit to the base 64
  split_ifs <;>
    simp (disch := omega) only [List.cons_append, List.nil_append, List.compare_cons_cons, Ordering.then_eq_lt,
      compare_ofNat_lt_iff, compare_ofNat_eq_iff, h12, h18] <;>
    omega

/-- Characters compare as their bytes do, whatever follows them. -/
theorem compare_utf8EncodeChar (c d : Char) (us vs : List UInt8) :
    compare (String.utf8EncodeChar c ++ us) (String.utf8EncodeChar d ++ vs) = (compare c d).then (compare us vs) := by
  rcases lt_trichotomy c d with h | rfl | h
  · rw [compare_utf8EncodeChar_of_lt h, compare_lt_iff_lt.2 h]
    rfl
  · rw [compare_append_self, Std.ReflOrd.compare_self]
    rfl
  · rw [Std.OrientedCmp.gt_of_lt (compare_utf8EncodeChar_of_lt h vs us), compare_gt_iff_gt.2 h]
    rfl

/-- **Texts compare as their bytes do.** -/
theorem compare_bytes (s t : String) : compare (bytes s) (bytes t) = compare s t := by
  rw [bytes_eq, bytes_eq, ← compare_toList]
  generalize s.toList = xs
  generalize t.toList = ys
  induction xs generalizing ys with
  | nil =>
    cases ys with
    | nil => rfl
    | cons y ys =>
      obtain ⟨b, rest, hb⟩ := List.exists_cons_of_ne_nil (String.utf8EncodeChar_ne_nil (c := y))
      rw [List.flatMap_cons, hb]
      rfl
  | cons x xs ih =>
    cases ys with
    | nil =>
      obtain ⟨b, rest, hb⟩ := List.exists_cons_of_ne_nil (String.utf8EncodeChar_ne_nil (c := x))
      rw [List.flatMap_cons, hb]
      rfl
    | cons y ys => rw [List.flatMap_cons, List.flatMap_cons, compare_utf8EncodeChar, ih, List.compare_cons_cons]

/-! ### Texts that end below -/

/-- The text ends here, or goes on with a character below `c`. -/
def Below (cs : List Char) (c : Char) : Prop := ∀ d ∈ cs.head?, d < c

/-- **Texts compare by their first parts and then by what follows them**, if what follows is below all characters of the
first parts: a first part that ends early is then less, as it is by itself. -/
theorem compare_append {xs ys us vs : List Char} (hx : ∀ c ∈ xs, Below vs c) (hy : ∀ c ∈ ys, Below us c) :
    compare (xs ++ us) (ys ++ vs) = (compare xs ys).then (compare us vs) := by
  induction xs generalizing ys with
  | nil =>
    cases ys with
    | nil => rfl
    | cons y ys =>
      cases us with
      | nil => rfl
      | cons u us =>
        have hu : u < y := hy y List.mem_cons_self u rfl
        rw [List.nil_append, List.cons_append, List.compare_cons_cons, compare_lt_iff_lt.2 hu]
        rfl
  | cons x xs ih =>
    cases ys with
    | nil =>
      cases vs with
      | nil => rfl
      | cons v vs =>
        have hv : v < x := hx x List.mem_cons_self v rfl
        rw [List.nil_append, List.cons_append, List.compare_cons_cons, compare_gt_iff_gt.2 hv]
        rfl
    | cons y ys =>
      rw [List.cons_append, List.cons_append, List.compare_cons_cons, List.compare_cons_cons, Ordering.then_assoc,
        ih (fun c hc => hx c (List.mem_cons_of_mem _ hc)) fun c hc => hy c (List.mem_cons_of_mem _ hc)]

end Text

namespace ShapeId

open Text (Below)

theorem dollar_lt_of_isIdentifierTail {c : Char} (h : Text.isIdentifierTail c = true) : '$' < c := by
  rcases Text.isIdentifierTail_iff.1 h with (h | h | rfl) | h
  · exact lt_of_lt_of_le (by decide : '$' < 'A') h.1
  · exact lt_of_lt_of_le (by decide : '$' < 'a') h.1
  · decide
  · exact lt_of_lt_of_le (by decide : '$' < '0') h.1

theorem hash_lt_of_isNamespace {cs : List Char} (h : isNamespace cs = true) {c : Char} (hc : c ∈ cs) : '#' < c := by
  rcases Text.mem_pieces '.' hc with rfl | ⟨p, hp, hc⟩
  · decide
  · have hpiece : Text.isIdentifier p = true := List.all_eq_true.1 h p hp
    exact lt_trans (by decide) (dollar_lt_of_isIdentifierTail (Text.isIdentifierTail_of_mem hpiece hc))

theorem memberText_below {cs : List Char} (h : Text.isIdentifier cs = true) (member : Option (List Char)) :
    ∀ c ∈ cs, Below (memberText member) c := by
  intro c hc d hd
  cases member with
  | none => cases hd
  | some m =>
    cases hd
    exact dollar_lt_of_isIdentifierTail (Text.isIdentifierTail_of_mem h hc)

theorem compare_memberText (m m' : Option String) :
    compare (memberText (m.map String.toList)) (memberText (m'.map String.toList)) = compare m m' := by
  cases m with
  | none => cases m' <;> rfl
  | some m =>
    cases m' with
    | none => rfl
    | some m' =>
      change compare ('$' :: m.toList) ('$' :: m'.toList) = compare m m'
      rw [List.compare_cons_cons, Std.ReflOrd.compare_self, ← Text.compare_toList]
      rfl

variable {a b : ShapeId}

/-- **Ids compare as their texts do.** -/
theorem compare_text (ha : a.Spelled) (hb : b.Spelled) : compare a.text b.text = compare a b := by
  have hparts : compare a b = (compare a.ns b.ns).then ((compare a.name b.name).then (compare a.member b.member)) := by
    rw [compare_eq_lex]
    rfl
  rw [hparts, ← Text.compare_toList, text_toList, text_toList, Text.compare_append, List.compare_cons_cons,
    Std.ReflOrd.compare_self, Ordering.eq_then, Text.compare_append (memberText_below ha.name _)
      (memberText_below hb.name _), Text.compare_toList, Text.compare_toList, compare_memberText]
  · rintro c hc d ⟨⟩
    exact hash_lt_of_isNamespace ha.ns hc
  · rintro c hc d ⟨⟩
    exact hash_lt_of_isNamespace hb.ns hc

end ShapeId

theorem Document.Keyed.shapeIds_ascending {d : Document} (h : d.Keyed) :
    d.shapeIds.Pairwise fun a b => compare a b = .lt := by
  unfold Document.shapeIds
  refine List.Pairwise.filterMap _ ?_ h.shapes
  intro e e' hlt a ha b hb
  obtain ⟨ha, hta⟩ := Document.key_of_shapeId ha
  obtain ⟨hb, htb⟩ := Document.key_of_shapeId hb
  rw [← ShapeId.compare_text ha hb, hta, htb]
  exact hlt

theorem Assembly.finish_ids {a : Assembly} {m : Model} (h : a.finish = .ok m) : m.shapes.map Shape.id = a.ids :=
  foldlM_preserves (P := fun m : Model => m.shapes.map Shape.id = a.ids)
    (fun _ _ _ _ hids hstep => (Assembly.flatten_ids hstep).trans hids) rfl h

theorem Model.ofDocument_ids {text : String} {m : Model} (h : Model.ofDocument text = .ok m) :
    ∃ d, Document.read text = some d ∧ m.shapes.map Shape.id = d.shapeIds := by
  obtain ⟨a, ha, h⟩ := bind_ok_iff.1 h
  unfold Assembly.push at ha
  split at ha
  · next d hd =>
    obtain ⟨-, defs, -, hdefs, hgains⟩ := Assembly.pushDocument_ok ha
    refine ⟨d, hd, ?_⟩
    rw [Assembly.finish_ids h, hgains.ids, Assembly.shapeIds_of_mapM hdefs]
    rfl
  · cases ha

/-- **Ids are in the order of their texts.**
1. Two ids that can be read compare as the bytes of their texts do.
2. The entries of a document are taken in the order of the bytes of their keys, and the shapes of a model that is loaded
   from it are those of its entries, in ascending order of their ids. -/
theorem ShapeId.ordered_by_text :
    (∀ s t a b, ShapeId.read s = .ok a → ShapeId.read t = .ok b →
      compare a b = compare (Text.bytes a.text) (Text.bytes b.text)) ∧
    ∀ text m, Model.ofDocument text = .ok m → ∃ d, Document.read text = some d ∧
      (d.shapes.Pairwise fun e e' => compare (Text.bytes e.1) (Text.bytes e'.1) = .lt) ∧
      m.shapes.map Shape.id = d.shapeIds ∧ m.shapes.Pairwise fun s s' => compare s.id s'.id = .lt := by
  constructor
  · intro s t a b ha hb
    rw [Text.compare_bytes, ShapeId.compare_text (ShapeId.spelled_of_read ha) (ShapeId.spelled_of_read hb)]
  · intro text m hm
    obtain ⟨d, hd, hids⟩ := Model.ofDocument_ids hm
    have hkeyed := Document.read_keyed hd
    refine ⟨d, hd, ?_, hids, ?_⟩
    · simp only [Text.compare_bytes]
      exact hkeyed.shapes
    · rw [← List.pairwise_map (f := Shape.id) (R := fun a b => compare a b = .lt), hids]
      exact hkeyed.shapeIds_ascending

/-- A document with its shapes in descending order. -/
def descendingText : String :=
  "\x7b\"shapes\":\x7b\"a.b#A\":\x7b\"type\":\"string\"\x7d,\"a#Z\":\x7b\"type\":\"string\"\x7d\x7d\x7d"

def ascendingModel : Model where
  shapes := [{ id := ⟨"a", "Z", none⟩, kind := .scalar .string }, { id := ⟨"a.b", "A", none⟩, kind := .scalar .string }]
  distinct := by decide

/-- A name that ends early comes first, whatever its member, and so does a namespace. -/
theorem ShapeId.ordered_by_text_descending :
    ShapeId.read "a#Z$m" = .ok ⟨"a", "Z", some "m"⟩ ∧ ShapeId.read "a#Z1" = .ok ⟨"a", "Z1", none⟩ ∧
    compare (Text.bytes "a#Z$m") (Text.bytes "a#Z1") = .lt ∧
    Model.ofDocument descendingText = .ok ascendingModel ∧
    ascendingModel.shapes.Pairwise fun s s' => compare s.id s'.id = .lt := by
  have hlong : ShapeId.read "a#Z$m" = .ok ⟨"a", "Z", some "m"⟩ := by with_unfolding_all rfl
  have hshort : ShapeId.read "a#Z1" = .ok ⟨"a", "Z1", none⟩ := by with_unfolding_all rfl
  have hload : Model.ofDocument descendingText = .ok ascendingModel := by cbv
  obtain ⟨hcompare, hshapes⟩ := ShapeId.ordered_by_text
  obtain ⟨d, -, -, -, hascending⟩ := hshapes _ _ hload
  have hbytes := hcompare _ _ _ _ hlong hshort
  exact ⟨hlong, hshort, hbytes.symm.trans (by decide), hload, hascending⟩

end ClientGen
