import ClientGen.ShapeId

/-!
# Ids and their texts

* `Text.cut?_eq_some_iff`: a text is cut at the first separator.
* `ShapeId.parse?_eq_some_iff`: reading accepts exactly the texts of such ids, and gives the id back.
-/

namespace ClientGen

namespace Text

theorem cut?_eq_none_iff {sep : Char} {cs : List Char} : cut? sep cs = none ↔ sep ∉ cs := by
  induction cs with
  | nil => simp [cut?]
  | cons c rest ih =>
    unfold cut?
    by_cases h : c = sep
    · simp [h]
    · simp [h, ih, Ne.symm h]

/-- **A text is cut at the first separator.** -/
theorem cut?_eq_some_iff {sep : Char} {cs before after : List Char} :
    cut? sep cs = some (before, after) ↔ cs = before ++ sep :: after ∧ sep ∉ before := by
  induction cs generalizing before with
  | nil => simp [cut?]
  | cons c rest ih =>
    unfold cut?
    by_cases h : c = sep
    · subst h
      cases before with
      | nil => simp [eq_comm]
      | cons b before =>
        simp only [if_pos, Option.some.injEq, Prod.mk.injEq, List.cons_append, List.cons.injEq, List.mem_cons, not_or]
        constructor
        · rintro ⟨h, -⟩
          cases h
        · rintro ⟨⟨h, -⟩, hne, -⟩
          exact absurd h hne
    · rw [if_neg h, Option.map_eq_some_iff]
      constructor
      · rintro ⟨⟨front, back⟩, hcut, heq⟩
        cases heq
        obtain ⟨rfl, hfront⟩ := ih.1 hcut
        exact ⟨rfl, by simp [hfront, Ne.symm h]⟩
      · rintro ⟨heq, hbefore⟩
        cases before with
        | nil => exact absurd (List.cons.inj heq).1 h
        | cons b before =>
          obtain ⟨rfl, hrest⟩ := List.cons.inj heq
          rw [List.mem_cons, not_or] at hbefore
          exact ⟨(before, after), ih.2 ⟨hrest, hbefore.2⟩, rfl⟩

theorem pieces_ne_nil (sep : Char) (cs : List Char) : pieces sep cs ≠ [] := by
  cases cs with
  | nil => simp [pieces]
  | cons c rest =>
    unfold pieces
    split
    · simp
    · split <;> simp

theorem pieces_eq_splitOn (sep : Char) (cs : List Char) : pieces sep cs = cs.splitOn sep := by
  rw [List.splitOn_eq_splitOnP]
  induction cs with
  | nil => rfl
  | cons c rest ih =>
    rw [List.splitOnP_cons_eq_if_modifyHead, pieces, ih]
    by_cases h : c = sep
    · rw [if_pos h, if_pos (beq_iff_eq.2 h)]
    · rw [if_neg h, if_neg (by simpa using h)]
      have hne := pieces_ne_nil sep rest
      rw [ih] at hne
      obtain ⟨head, tail, heq⟩ := List.exists_cons_of_ne_nil hne
      rw [heq]
      rfl

theorem mem_pieces (sep : Char) {c : Char} {cs : List Char} (h : c ∈ cs) :
    c = sep ∨ ∃ p ∈ pieces sep cs, c ∈ p := by
  induction cs with
  | nil => cases h
  | cons d rest ih =>
    unfold pieces
    by_cases hd : d = sep
    · rw [if_pos hd]
      rcases List.mem_cons.1 h with rfl | h
      · exact .inl hd
      rcases ih h with hc | ⟨p, hp, hc⟩
      · exact .inl hc
      · exact .inr ⟨p, List.mem_cons_of_mem _ hp, hc⟩
    · rw [if_neg hd]
      cases hp : pieces sep rest with
      | nil => exact absurd hp (pieces_ne_nil sep rest)
      | cons head tail =>
        rw [hp] at ih
        rcases List.mem_cons.1 h with rfl | h
        · exact .inr ⟨_, List.mem_cons_self, List.mem_cons_self⟩
        rcases ih h with hc | ⟨p, hp, hc⟩
        · exact .inl hc
        rcases List.mem_cons.1 hp with rfl | hp
        · exact .inr ⟨_, List.mem_cons_self, List.mem_cons_of_mem _ hc⟩
        · exact .inr ⟨p, List.mem_cons_of_mem _ hp, hc⟩

theorem isIdentifierTail_of_mem {cs : List Char} (h : isIdentifier cs = true) {c : Char} (hc : c ∈ cs) :
    isIdentifierTail c = true := by
  cases cs with
  | nil => cases hc
  | cons d rest =>
    simp only [isIdentifier, Bool.and_eq_true, List.all_eq_true] at h
    rcases List.mem_cons.1 hc with rfl | hc
    · have hhead := h.1
      simp only [isIdentifierHead, isIdentifierTail, Bool.or_eq_true] at hhead ⊢
      rcases hhead with hhead | hhead
      · exact .inl (.inl hhead)
      · exact .inr hhead
    · exact h.2 c hc

end Text

namespace ShapeId

variable {id : ShapeId} {s : String}

/-- The parts of the id are identifiers, and the namespace is a list of them. -/
structure Spelled (id : ShapeId) : Prop where
  ns : isNamespace id.ns.toList = true
  name : Text.isIdentifier id.name.toList = true
  member : ∀ m, id.member = some m → Text.isIdentifier m.toList = true

theorem spelled_withMember_iff (h : id.Spelled) {name : String} :
    (id.withMember name).Spelled ↔ Text.isIdentifier name.toList = true := by
  constructor
  · exact fun hm => hm.member name rfl
  · rintro hname
    refine ⟨h.ns, h.name, ?_⟩
    rintro m ⟨⟩
    exact hname

theorem isNamespace_no_hash {cs : List Char} (h : isNamespace cs = true) : '#' ∉ cs := by
  intro hmem
  rcases Text.mem_pieces '.' hmem with heq | ⟨p, hp, hc⟩
  · exact absurd heq (by decide)
  · have hpiece : Text.isIdentifier p = true := List.all_eq_true.1 h p hp
    exact absurd (Text.isIdentifierTail_of_mem hpiece hc) (by decide)

theorem isIdentifier_no_dollar {cs : List Char} (h : Text.isIdentifier cs = true) : '$' ∉ cs := fun hmem =>
  absurd (Text.isIdentifierTail_of_mem h hmem) (by decide)

/-- The part of the text after the name. -/
def memberText : Option (List Char) → List Char
  | none => []
  | some m => '$' :: m

theorem text_toList (id : ShapeId) :
    id.text.toList = id.ns.toList ++ '#' :: (id.name.toList ++ memberText (id.member.map String.toList)) := by
  unfold text memberText
  cases id.member <;> simp

/-- A name without a dollar sign, and a member after the first one if there is any. -/
theorem splitName_eq_iff {cs name : List Char} {member : Option (List Char)} :
    splitName cs = (name, member) ↔ cs = name ++ memberText member ∧ '$' ∉ name := by
  unfold splitName
  cases hcut : Text.cut? '$' cs with
  | none =>
    have hcs := Text.cut?_eq_none_iff.1 hcut
    cases member with
    | none =>
      simp only [memberText, List.append_nil, Prod.mk.injEq, and_true]
      exact ⟨fun h => ⟨h, h ▸ hcs⟩, fun h => h.1⟩
    | some m =>
      simp only [memberText, Prod.mk.injEq, reduceCtorEq, and_false, false_iff, not_and]
      rintro rfl
      simp at hcs
  | some parts =>
    obtain ⟨before, after⟩ := parts
    obtain ⟨rfl, hbefore⟩ := Text.cut?_eq_some_iff.1 hcut
    cases member with
    | none =>
      simp only [memberText, List.append_nil, Prod.mk.injEq, reduceCtorEq, and_false, false_iff, not_and]
      rintro rfl
      simp
    | some m =>
      simp only [memberText, Prod.mk.injEq, Option.some.injEq]
      constructor
      · rintro ⟨rfl, rfl⟩
        exact ⟨rfl, hbefore⟩
      · -- both cut the text at its first dollar sign
        rintro ⟨heq, hname⟩
        have hagain := Text.cut?_eq_some_iff.2 ⟨heq, hname⟩
        rw [hcut] at hagain
        cases hagain
        exact ⟨rfl, rfl⟩

/-- **Reading accepts exactly the texts of ids whose parts are identifiers**, and gives the id back. -/
theorem parse?_eq_some_iff : parse? s = some id ↔ id.Spelled ∧ id.text = s := by
  unfold parse?
  constructor
  · intro h
    cases hcut : Text.cut? '#' s.toList with
    | none =>
      rw [hcut] at h
      cases h
    | some parts =>
      obtain ⟨ns, rest⟩ := parts
      rw [hcut] at h
      cases hsplit : splitName rest with
      | mk name member =>
        simp only [hsplit, Option.ite_none_right_eq_some, Bool.and_eq_true] at h
        obtain ⟨⟨⟨hns, hname⟩, hmember⟩, h⟩ := h
        cases h
        refine ⟨⟨by simpa using hns, by simpa using hname, ?_⟩, ?_⟩
        · rintro m hm
          obtain ⟨cs, rfl, rfl⟩ := Option.map_eq_some_iff.1 hm
          simpa using hmember
        · rw [← String.toList_inj, text_toList, (Text.cut?_eq_some_iff.1 hcut).1, (splitName_eq_iff.1 hsplit).1]
          cases member <;> simp [memberText]
  · rintro ⟨hid, rfl⟩
    -- no part has a separator in it, so the text is cut where it was joined
    have hcut : Text.cut? '#' id.text.toList =
        some (id.ns.toList, id.name.toList ++ memberText (id.member.map String.toList)) :=
      Text.cut?_eq_some_iff.2 ⟨text_toList id, isNamespace_no_hash hid.ns⟩
    have hsplit : splitName (id.name.toList ++ memberText (id.member.map String.toList)) =
        (id.name.toList, id.member.map String.toList) :=
      splitName_eq_iff.2 ⟨rfl, isIdentifier_no_dollar hid.name⟩
    have hmember : ((id.member.map String.toList).map Text.isIdentifier).getD true = true := by
      cases hm : id.member with
      | none => rfl
      | some m => exact hid.member m hm
    rw [hcut]
    simp only [hsplit, hid.ns, hid.name, hmember, Bool.and_self, if_true, String.ofList_toList]
    cases hm : id.member <;> simp [← hm]

theorem parse?_text_iff : parse? id.text = some id ↔ id.Spelled := by
  rw [parse?_eq_some_iff]
  exact and_iff_left rfl

end ShapeId

end ClientGen
