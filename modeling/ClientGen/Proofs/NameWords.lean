import ClientGen.Proofs.FixedNames

/-!
# Words of a name

The styles of attributes and constants write the words of a name in one case, with underscores between them.

* `Text.snakeCase_eq`: a name in the style of attributes is its words with underscores between them.
* `Text.join_words`: joined, the words are the letters and digits of the name, in lower case.
* `Naming.memberName_eq_iff`, `Package.constantName_eq_iff`: **two names have the same attribute, or the same
  constant, exactly if they have the same words.** What keeps a name legal does not make more names meet.
-/

namespace ClientGen

namespace Text

/-! ### Words -/

/-- A word at its end; without characters it is none. -/
def closeWord (word : List Char) : List (List Char) := if word.isEmpty then [] else [word]

/-- The words of the name from byte offset `i` on, where `word` has been read of the first: runs of letters and
digits, cut before each character that starts a word. -/
def wordsFrom (name word : List Char) (i : Nat) : List Char → List (List Char)
  | [] => closeWord word
  | c :: rest =>
    let next := i + c.utf8Size
    if !isAlphanumeric c then closeWord word ++ wordsFrom name [] next rest
    else if startsWord name i c then closeWord word ++ wordsFrom name [c] next rest
    else wordsFrom name (word ++ [c]) next rest

/-- The words of a name, in lower case. -/
def words (s : String) : List String :=
  (wordsFrom s.toList [] 0 s.toList).map fun w => String.ofList (w.map asciiLower)

/-- The letters and digits of a name, in lower case. -/
def letters (s : String) : String :=
  String.ofList ((s.toList.filter isAlphanumeric).map asciiLower)

example : words "HTTPHeader_list2b" = ["http", "header", "list", "2b"] := by decide +kernel

@[simp] theorem flatten_closeWord (word : List Char) : (closeWord word).flatten = word := by
  cases word with
  | nil => rfl
  | cons c rest => exact List.flatten_singleton

section Words

variable {name : List Char}

/-- Nothing is lost but what separates words. -/
theorem flatten_wordsFrom : ∀ (cs word : List Char) (i : Nat),
    (wordsFrom name word i cs).flatten = word ++ cs.filter isAlphanumeric := by
  intro cs
  induction cs with
  | nil =>
    intro word i
    simp [wordsFrom]
  | cons c rest ih =>
    intro word i
    unfold wordsFrom
    dsimp only
    cases hc : isAlphanumeric c with
    | false => simp [ih, hc]
    | true => cases startsWord name i c <;> simp [ih, hc]

theorem ne_nil_of_mem_wordsFrom : ∀ (cs word : List Char) (i : Nat), ∀ w ∈ wordsFrom name word i cs, w ≠ [] := by
  have hclose : ∀ word, ∀ w ∈ closeWord word, w ≠ [] := by
    intro word w hw
    cases word with
    | nil => cases hw
    | cons c rest =>
      cases List.mem_singleton.1 hw
      exact List.cons_ne_nil c rest
  intro cs
  induction cs with
  | nil => exact fun word i => hclose word
  | cons c rest ih =>
    intro word i w hw
    unfold wordsFrom at hw
    dsimp only at hw
    split at hw
    · exact (List.mem_append.1 hw).elim (hclose word w) (ih _ _ w)
    · split at hw
      · exact (List.mem_append.1 hw).elim (hclose word w) (ih _ _ w)
      · exact ih _ _ w hw

theorem isAlphanumeric_of_mem_wordsFrom {cs w : List Char} {i : Nat} {c : Char} (hw : w ∈ wordsFrom name [] i cs)
    (hc : c ∈ w) : isAlphanumeric c = true := by
  have hmem : c ∈ (wordsFrom name [] i cs).flatten := List.mem_flatten.2 ⟨w, hw, hc⟩
  rw [flatten_wordsFrom, List.nil_append, List.mem_filter] at hmem
  exact hmem.2

theorem wordsFrom_append {trailing : List Char} (htrailing : ∀ c ∈ trailing, isAlphanumeric c = false) :
    ∀ (cs word : List Char) (i : Nat), wordsFrom name word i (cs ++ trailing) = wordsFrom name word i cs := by
  have hnone : ∀ word i, wordsFrom name word i trailing = closeWord word := by
    induction trailing with
    | nil => exact fun _ _ => rfl
    | cons c rest ih =>
      intro word i
      unfold wordsFrom
      dsimp only
      rw [htrailing c List.mem_cons_self, ih fun d hd => htrailing d (List.mem_cons_of_mem _ hd)]
      exact List.append_nil _
  intro cs
  induction cs with
  | nil => exact fun word i => hnone word i
  | cons c rest ih =>
    intro word i
    rw [List.cons_append]
    unfold wordsFrom
    dsimp only
    rw [ih, ih, ih]

/-- **The words are joined by underscores** in the scan that writes a name without what separates words at its
end. -/
theorem joinWords_eq (style : Char → Char) : ∀ (cs word : List Char) (i : Nat),
    (∀ c ∈ cs.getLast?, isAlphanumeric c = true) →
    word.map style ++ joinWords style name word.isEmpty i cs =
      ['_'].intercalate ((wordsFrom name word i cs).map (List.map style)) := by
  intro cs
  induction cs with
  | nil =>
    intro word i _
    cases word <;> simp [joinWords, wordsFrom, closeWord, List.intercalate]
  | cons c rest ih =>
    intro word i hlast
    have hrest : ∀ d ∈ rest.getLast?, isAlphanumeric d = true := by
      intro d hd
      refine hlast d ?_
      rw [List.getLast?_cons, Option.mem_def.1 hd]
      rfl
    -- between a word that is closed and those that follow there is one underscore
    have hclose : ∀ (ws : List (List Char)), ws ≠ [] → ['_'].intercalate ((closeWord word ++ ws).map (List.map style)) =
        word.map style ++ (if word.isEmpty then [] else ['_']) ++ ['_'].intercalate (ws.map (List.map style)) := by
      intro ws hws
      cases word with
      | nil => rfl
      | cons d word => exact List.intercalate_cons_of_ne_nil (mt List.map_eq_nil_iff.1 hws)
    unfold joinWords wordsFrom
    dsimp only
    cases hc : isAlphanumeric c with
    | false =>
      -- the name does not end with what separates words, so another word follows
      have hmore : wordsFrom name [] (i + c.utf8Size) rest ≠ [] := by
        intro hnil
        have hflat : (wordsFrom name [] (i + c.utf8Size) rest).flatten = rest.filter isAlphanumeric :=
          flatten_wordsFrom rest [] _
        rw [hnil] at hflat
        cases hend : rest.getLast? with
        | none =>
          rw [List.getLast?_eq_none_iff] at hend
          subst hend
          exact absurd (hlast c rfl) (by rw [hc]; exact Bool.false_ne_true)
        | some d =>
          have hmem := List.mem_filter.2 ⟨List.mem_of_getLast? hend, hrest d hend⟩
          rw [← hflat] at hmem
          cases hmem
      rw [Bool.not_false, if_pos rfl, if_pos rfl, hclose _ hmore, ← ih [] _ hrest]
      cases word <;> simp
    | true =>
      rw [Bool.not_true, if_neg Bool.false_ne_true, if_neg Bool.false_ne_true]
      cases hstart : startsWord name i c with
      | false =>
        rw [Bool.and_false, if_neg Bool.false_ne_true, if_neg Bool.false_ne_true, ← ih _ _ hrest]
        cases word <;> simp
      | true =>
        have hmore : wordsFrom name [c] (i + c.utf8Size) rest ≠ [] := by
          intro hnil
          have hflat : (wordsFrom name [c] (i + c.utf8Size) rest).flatten = [c] ++ rest.filter isAlphanumeric :=
            flatten_wordsFrom rest [c] _
          rw [hnil] at hflat
          cases hflat
        rw [if_pos rfl, hclose _ hmore, ← ih [c] _ hrest]
        cases word <;> simp

end Words

/-! ### Styles -/

theorem nameBody_split (cs : List Char) : ∃ trailing, cs = nameBody cs ++ trailing ∧
    (∀ c ∈ trailing, isAlphanumeric c = false) ∧ ∀ c ∈ (nameBody cs).getLast?, isAlphanumeric c = true := by
  refine ⟨(cs.reverse.takeWhile fun c => !isAlphanumeric c).reverse, ?_, fun c hc => ?_, fun c hc => ?_⟩
  · unfold nameBody dropEndWhile
    rw [← List.reverse_append, List.takeWhile_append_dropWhile, List.reverse_reverse]
  · have hall := List.all_eq_true.1 (List.all_takeWhile (p := fun c => !isAlphanumeric c)) c (List.mem_reverse.1 hc)
    rwa [Bool.not_eq_true'] at hall
  · have hhead := List.head?_dropWhile_not (fun c => !isAlphanumeric c) cs.reverse
    unfold nameBody dropEndWhile at hc
    rw [List.getLast?_reverse] at hc
    rw [Option.mem_def.1 hc] at hhead
    dsimp only at hhead
    rwa [Bool.not_eq_false'] at hhead

theorem joinWords_nameBody (style : Char → Char) (s : String) :
    joinWords style s.toList true 0 (nameBody s.toList) =
      ['_'].intercalate ((wordsFrom s.toList [] 0 s.toList).map (List.map style)) := by
  obtain ⟨trailing, hsplit, htrailing, hlast⟩ := nameBody_split s.toList
  have hwords : wordsFrom s.toList [] 0 s.toList = wordsFrom s.toList [] 0 (nameBody s.toList) := by
    conv_lhs => arg 4; rw [hsplit]
    exact wordsFrom_append htrailing _ _ _
  rw [hwords, ← joinWords_eq style _ _ _ hlast]
  rfl

theorem intercalate_eq_iff {ws vs : List (List Char)} (hws : ∀ w ∈ ws, w ≠ [] ∧ '_' ∉ w)
    (hvs : ∀ w ∈ vs, w ≠ [] ∧ '_' ∉ w) : ['_'].intercalate ws = ['_'].intercalate vs ↔ ws = vs := by
  have hnil : ∀ us : List (List Char), (∀ w ∈ us, w ≠ [] ∧ '_' ∉ w) → ['_'].intercalate us = [] → us = [] := by
    intro us hus h
    by_contra hne
    have hsplit := List.splitOn_intercalate '_' (fun w hw => (hus w hw).2) hne
    rw [h] at hsplit
    exact (hus [] (hsplit ▸ List.mem_singleton_self [])).1 rfl
  refine ⟨fun h => ?_, fun h => by rw [h]⟩
  rcases eq_or_ne ws [] with rfl | hne
  · exact (hnil vs hvs h.symm).symm
  · rcases eq_or_ne vs [] with rfl | hne'
    · exact hnil ws hws h
    · rw [← List.splitOn_intercalate '_' (fun w hw => (hws w hw).2) hne, h,
        List.splitOn_intercalate '_' (fun w hw => (hvs w hw).2) hne']

/-- A style that makes underscores of nothing else tells names apart by their words. -/
theorem joinWords_eq_iff {style : Char → Char} (hstyle : ∀ c, style c = '_' → c = '_') (a b : String) :
    joinWords style a.toList true 0 (nameBody a.toList) = joinWords style b.toList true 0 (nameBody b.toList) ↔
      (wordsFrom a.toList [] 0 a.toList).map (List.map style) =
        (wordsFrom b.toList [] 0 b.toList).map (List.map style) := by
  have hwords : ∀ s : String, ∀ w ∈ (wordsFrom s.toList [] 0 s.toList).map (List.map style), w ≠ [] ∧ '_' ∉ w := by
    intro s w hw
    obtain ⟨v, hv, rfl⟩ := List.mem_map.1 hw
    refine ⟨mt List.map_eq_nil_iff.1 (ne_nil_of_mem_wordsFrom _ _ _ v hv), fun hmem => ?_⟩
    obtain ⟨c, hc, hunder⟩ := List.mem_map.1 hmem
    have hclass := isAlphanumeric_of_mem_wordsFrom hv hc
    rw [hstyle c hunder, isAlphanumeric_underscore] at hclass
    cases hclass
  rw [joinWords_nameBody, joinWords_nameBody, intercalate_eq_iff (hwords a) (hwords b)]

theorem words_eq_iff {a b : String} : words a = words b ↔
    (wordsFrom a.toList [] 0 a.toList).map (List.map asciiLower) =
      (wordsFrom b.toList [] 0 b.toList).map (List.map asciiLower) := by
  have hwords : ∀ s : String,
      words s = ((wordsFrom s.toList [] 0 s.toList).map (List.map asciiLower)).map String.ofList := by
    intro s
    rw [List.map_map]
    rfl
  rw [hwords, hwords, List.map_inj_right fun _ _ => String.ofList_inj.1]

/-- A name in the style of attributes is its words with underscores between them. -/
theorem snakeCase_eq (s : String) : snakeCase s = "_".intercalate (words s) := by
  rw [← String.toList_inj, snakeCase, String.toList_ofList, joinWords_nameBody, String.toList_intercalate, words,
    List.map_map]
  refine congrArg _ (List.map_congr_left fun w _ => ?_)
  exact String.toList_ofList.symm

theorem snakeCase_eq_iff {a b : String} : snakeCase a = snakeCase b ↔ words a = words b := by
  have hstyle : ∀ c, asciiLower c = '_' → c = '_' := fun c hc => eq_of_toLower hc rfl
  rw [snakeCase, snakeCase, String.ofList_inj, joinWords_eq_iff hstyle, words_eq_iff]

theorem screamingCase_eq_iff {a b : String} : screamingCase a = screamingCase b ↔ words a = words b := by
  have hstyle : ∀ c, asciiUpper c = '_' → c = '_' := fun c hc => eq_of_toUpper hc rfl
  have hupper : ∀ ws : List (List Char), ws.map (List.map asciiUpper) =
      (ws.map (List.map asciiLower)).map (List.map asciiUpper) := by
    intro ws
    simp [asciiUpper, asciiLower]
  have hlower : ∀ ws : List (List Char), ws.map (List.map asciiLower) =
      (ws.map (List.map asciiUpper)).map (List.map asciiLower) := by
    intro ws
    simp [asciiUpper, asciiLower]
  rw [screamingCase, screamingCase, String.ofList_inj, joinWords_eq_iff hstyle, words_eq_iff]
  constructor
  · intro h
    rw [hlower, h, ← hlower]
  · intro h
    rw [hupper, h, ← hupper]

theorem joinWords_getLast? {style : Char → Char} {name : List Char} {last : Char} (hlast : isAlphanumeric last = true) :
    ∀ (cs : List Char) (first : Bool) (i : Nat), cs.getLast? = some last →
      (joinWords style name first i cs).getLast? = some (style last) := by
  intro cs
  induction cs with
  | nil =>
    intro first i h
    cases h
  | cons c rest ih =>
    intro first i h
    unfold joinWords
    dsimp only
    cases hrest : rest.getLast? with
    | none =>
      rw [List.getLast?_eq_none_iff] at hrest
      subst hrest
      obtain rfl : c = last := Option.some.inj h
      rw [hlast, Bool.not_true, if_neg Bool.false_ne_true]
      split <;> rfl
    | some d =>
      rw [List.getLast?_cons, hrest] at h
      obtain rfl : d = last := Option.some.inj h
      have htail : ∀ first, (joinWords style name first (i + c.utf8Size) rest).getLast? = some (style d) :=
        fun first => ih first _ hrest
      split
      · split
        · exact htail true
        · rw [List.getLast?_cons, htail]
          rfl
      · split
        · rw [List.getLast?_cons, List.getLast?_cons, htail]
          rfl
        · rw [List.getLast?_cons, htail]
          rfl

theorem snakeCase_last (s : String) : (snakeCase s).toList.getLast? ≠ some '_' := by
  obtain ⟨trailing, -, -, hlast⟩ := nameBody_split s.toList
  rw [snakeCase, String.toList_ofList]
  cases hbody : (nameBody s.toList).getLast? with
  | none =>
    rw [List.getLast?_eq_none_iff.1 hbody]
    exact Option.some_ne_none _ ∘ Eq.symm
  | some c =>
    have hc := hlast c hbody
    rw [joinWords_getLast? hc _ _ _ hbody]
    intro h
    rw [eq_of_toLower (Option.some.inj h) rfl, isAlphanumeric_underscore] at hc
    cases hc

/-- **Joined, the words are the letters and digits of the name.** -/
theorem join_words (s : String) : String.join (words s) = letters s := by
  have hflat : (wordsFrom s.toList [] 0 s.toList).flatten = s.toList.filter isAlphanumeric := flatten_wordsFrom _ _ _
  rw [← String.toList_inj, String.toList_join, letters, String.toList_ofList, ← hflat, List.map_flatten, words,
    List.flatMap_map, ← List.flatMap_id, List.flatMap_map]
  exact List.flatMap_congr fun w _ => String.toList_ofList

end Text

/-! ### Legal names -/

namespace Naming

open Text

theorem marked_eq_iff {taken : String → Bool} {x y : String} (hx : x.toList.getLast? ≠ some '_')
    (hy : y.toList.getLast? ≠ some '_') :
    (if taken x then x ++ "_" else x) = (if taken y then y ++ "_" else y) ↔ x = y := by
  have hmark : ∀ z : String, (z ++ "_").toList.getLast? = some '_' := by
    intro z
    rw [String.toList_append]
    exact List.getLast?_concat
  refine ⟨fun h => ?_, fun h => by rw [h]⟩
  split at h <;> split at h
  · exact (String.append_left_inj "_").1 h
  · rw [← h] at hy
    exact absurd (hmark x) hy
  · rw [h] at hx
    exact absurd (hmark y) hx
  · exact h

/-- **Attributes**: an underscore at the end keeps clear of keywords only. -/
theorem memberName_eq_iff {a b : String} : memberName a = memberName b ↔ words a = words b := by
  rw [← snakeCase_eq_iff]
  exact @marked_eq_iff (fun snake => keywords.contains snake || snake == "self") _ _ (snakeCase_last a)
    (snakeCase_last b)

end Naming

namespace Package

open Text

theorem marked_eq_iff {marks : List Char → Bool} {x y : List Char} (hx : x.head? ≠ some '_') (hy : y.head? ≠ some '_') :
    (if marks x then ['_'] else []) ++ x = (if marks y then ['_'] else []) ++ y ↔ x = y := by
  refine ⟨fun h => ?_, fun h => by rw [h]⟩
  split at h <;> split at h
  · exact (List.cons.inj h).2
  · exact absurd (congrArg List.head? h.symm) hy
  · exact absurd (congrArg List.head? h) hx
  · exact h

/-- A constant has an underscore in front if it would be empty or start with a digit. -/
theorem constantName_toList (name : String) : (constantName name).toList =
    (if (screamingCase name).toList.head?.all Char.isDigit then ['_'] else []) ++ (screamingCase name).toList := by
  unfold constantName
  dsimp only
  cases h : (screamingCase name).toList with
  | nil => simp
  | cons c rest => cases hc : c.isDigit <;> simp [hc, h]

/-- **Constants**: an underscore in front is the mark of an empty one, or of a digit. -/
theorem constantName_eq_iff {a b : String} : constantName a = constantName b ↔ words a = words b := by
  have hhead : ∀ s, (screamingCase s).toList.head? ≠ some '_' := by
    intro s h
    rw [screamingCase, String.toList_ofList, List.head?_eq_some_iff] at h
    obtain ⟨rest, hrest⟩ := h
    exact joinWords_head (fun _ hd => eq_of_toUpper hd rfl) hrest rfl
  have hmarked := @marked_eq_iff (fun x => x.head?.all Char.isDigit) _ _ (hhead a) (hhead b)
  rw [← screamingCase_eq_iff, ← String.toList_inj, constantName_toList, constantName_toList, hmarked, String.toList_inj]

end Package

end ClientGen
