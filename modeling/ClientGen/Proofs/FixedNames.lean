import ClientGen.Proofs.TypeMentions
import Mathlib

/-!
# Names that no shape can take

Every models module starts with a few names of its own. The style of class names, and the underscore after the ones
that are reserved, keep the classes of shapes apart from them; so do the words that functions of collections
start with, and those that the helpers of a union end with. The variants of a union may take three of the names, for
the reserved ones are avoided in the name of the union only.

* `className_head`, `variant_head`, `snakeCase_head`, `screamingCase_isLower`: what the styles never start with or
  hold.
* `className_not_mem`, `function_not_mem`, `unionHelper_not_mem`: the names that are kept apart.
* `variant_mem_iff`: the names that a variant may take.
-/

namespace ClientGen

open Text Naming Package

variable {c : Char} {rest : List Char} {name : String}

/-- What is no letter is a capital of itself only. -/
theorem eq_of_toUpper {c d : Char} (h : c.toUpper = d) (hd : d.isAlpha = false) : c = d := by
  have halpha : c.isAlpha = false := by rw [← Char.isAlpha_toUpper_eq_isAlpha, h, hd]
  have hlower : ¬ c.isLower = true := by
    intro hlower
    simp [Char.isAlpha, hlower] at halpha
  rwa [Char.toUpper_eq_of_not_isLower hlower] at h

theorem eq_of_toLower {c d : Char} (h : c.toLower = d) (hd : d.isAlpha = false) : c = d := by
  have halpha : c.isAlpha = false := by rw [← Char.isAlpha_toLower_eq_isAlpha, h, hd]
  have hupper : ¬ c.isUpper = true := by
    intro hupper
    simp [Char.isAlpha, hupper] at halpha
  rwa [Char.toLower_eq_of_not_isUpper hupper] at h

theorem isAlphanumeric_underscore : isAlphanumeric '_' = false := by decide +kernel

theorem isLower_of_isNumeric (h : isNumeric c = true) : c.isLower = false := by
  unfold isNumeric at h
  rw [Bool.eq_false_iff]
  intro hlower
  simp only [Char.isLower, ge_iff_le, UInt32.le_iff_toNat_le, decide_eq_true_eq, Bool.and_eq_true] at hlower
  have hlow : 97 ≤ c.val.toNat := hlower.1
  have hhigh : c.val.toNat ≤ 122 := hlower.2
  split at h
  · simp only [Char.isDigit, ge_iff_le, UInt32.le_iff_toNat_le, decide_eq_true_eq, Bool.and_eq_true] at h
    have hdigit : c.val.toNat ≤ 57 := h.2
    omega
  · rename_i hascii
    apply hascii
    simp only [isAscii, decide_eq_true_eq]
    show c.val.toNat < 128
    omega

/-- A name in the style of classes starts with a capital, a digit, or a letter without case. -/
theorem pascalChars_head {cs : List Char} {st : PascalState} (hst : st.newWord = true)
    (h : pascalChars st cs = c :: rest) : c.isLower = false ∧ c ≠ '_' := by
  induction cs generalizing st with
  | nil => cases h
  | cons d cs ih =>
    unfold pascalChars at h
    split at h
    · exact ih (by split <;> simp [hst]) h
    · rename_i halpha
      have hne : d ≠ '_' := by
        rintro rfl
        simp [isAlphanumeric_underscore] at halpha
      split at h
      · rename_i hnum
        cases h
        exact ⟨isLower_of_isNumeric hnum, hne⟩
      · rw [if_pos (by simp [hst])] at h
        cases h
        exact ⟨Char.isLower_toUpper_eq_false d, fun hupper => hne (eq_of_toUpper hupper rfl)⟩

theorem pascalCase_head (h : (pascalCase name).toList = c :: rest) : c.isLower = false ∧ c ≠ '_' := by
  rw [pascalCase, String.toList_ofList] at h
  exact pascalChars_head rfl h

theorem className_head (h : (className name).toList = c :: rest) : c.isLower = false ∧ c ≠ '_' := by
  unfold className at h
  dsimp only at h
  cases hpascal : (pascalCase name).toList with
  | nil =>
    have hempty : pascalCase name = "" := String.toList_inj.1 hpascal
    rw [hempty, if_neg (by decide)] at h
    cases h
  | cons d tail =>
    have hd := pascalCase_head hpascal
    split at h
    · rw [String.toList_append, hpascal] at h
      cases h
      exact hd
    · rw [hpascal] at h
      cases h
      exact hd

theorem variant_head {union member : String} (h : (className union ++ pascalCase member).toList = c :: rest) :
    c.isLower = false ∧ c ≠ '_' := by
  rw [String.toList_append] at h
  cases hclass : (className union).toList with
  | nil =>
    rw [hclass, List.nil_append] at h
    exact pascalCase_head h
  | cons d tail =>
    rw [hclass] at h
    cases h
    exact className_head hclass

theorem joinWords_head {style : Char → Char} (hstyle : ∀ c, style c = '_' → c = '_') {name cs : List Char} {i : Nat}
    (h : joinWords style name true i cs = c :: rest) : c ≠ '_' := by
  induction cs generalizing i with
  | nil => cases h
  | cons d cs ih =>
    unfold joinWords at h
    dsimp only at h
    split at h
    · exact ih h
    · rename_i halpha
      cases h
      intro hunder
      cases hstyle d hunder
      simp [isAlphanumeric_underscore] at halpha

theorem snakeCase_head (h : (snakeCase name).toList = c :: rest) : c ≠ '_' := by
  rw [snakeCase, String.toList_ofList] at h
  exact joinWords_head (fun _ hd => eq_of_toLower hd rfl) h

theorem screamingCase_isLower (name : String) : ∀ c ∈ (screamingCase name).toList, c.isLower = false := by
  have hall : ∀ (cs : List Char) (first : Bool) (i : Nat), ∀ c ∈ joinWords asciiUpper name.toList first i cs,
      c.isLower = false := by
    intro cs
    induction cs with
    | nil => exact fun _ _ _ hc => by cases hc
    | cons d cs ih =>
      intro first i c hc
      have hd : (asciiUpper d).isLower = false := Char.isLower_toUpper_eq_false d
      unfold joinWords at hc
      dsimp only at hc
      split at hc
      · split at hc
        · exact ih _ _ c hc
        · rcases List.mem_cons.1 hc with rfl | hc
          · rfl
          · exact ih _ _ c hc
      · split at hc
        · rcases List.mem_cons.1 hc with rfl | hc
          · rfl
          rcases List.mem_cons.1 hc with rfl | hc
          · exact hd
          · exact ih _ _ c hc
        · rcases List.mem_cons.1 hc with rfl | hc
          · exact hd
          · exact ih _ _ c hc
  rw [screamingCase, String.toList_ofList]
  exact hall _ _ _

theorem preambleNames_subset (m : Model) :
    preambleNames m ⊆ ["logger", "_DEFAULT_TIMESTAMP", "ServiceError", "ApiError", "UnknownApiError"] := by
  unfold preambleNames
  cases hasTimestamp m <;> simp

theorem className_not_mem (name : String) (m : Model) : className name ∉ preambleNames m := by
  intro h
  have hmem := preambleNames_subset m h
  generalize hpascal : pascalCase name = pascal at *
  unfold className at hmem
  rw [hpascal] at hmem
  dsimp only at hmem
  split at hmem
  · -- an underscore ends none of the names
    have hlast : (pascal ++ "_").toList.getLast? = some '_' := by simp
    rw [List.mem_cons, List.mem_cons, List.mem_cons, List.mem_cons, List.mem_singleton] at hmem
    rcases hmem with hmem | hmem | hmem | hmem | hmem <;> rw [hmem] at hlast <;> revert hlast <;> decide
  · rename_i hfree
    have hreserved : pascal ∉ reservedClassNames := by
      intro hr
      simp [hr] at hfree
    have hhead : ∀ c rest, pascal.toList = c :: rest → c.isLower = false ∧ c ≠ '_' := by
      rintro c rest hlist
      rw [← hpascal] at hlist
      exact pascalCase_head hlist
    rw [List.mem_cons, List.mem_cons, List.mem_cons, List.mem_cons, List.mem_singleton] at hmem
    rcases hmem with rfl | rfl | rfl | rfl | rfl
    · exact absurd (hhead 'l' _ rfl).1 (by decide)
    · exact (hhead '_' _ rfl).2 rfl
    all_goals exact hreserved (by decide)

/-- Nor is any function of a collection. -/
theorem function_not_mem (name : String) (m : Model) :
    "_serialize_" ++ name ∉ preambleNames m ∧ "_deserialize_" ++ name ∉ preambleNames m := by
  constructor
  all_goals
    intro h
    have hmem := preambleNames_subset m h
    rw [List.mem_cons, List.mem_cons, List.mem_cons, List.mem_cons, List.mem_singleton] at hmem
    rcases hmem with hmem | hmem | hmem | hmem | hmem
    all_goals
      have hsecond := congrArg (fun s : String => s.toList[1]?) hmem
      simp at hsecond

/-- Nor are the class of a union's unknown variants and the class that reads it. -/
theorem unionHelper_not_mem (name : String) (m : Model) :
    name ++ "Unknown" ∉ preambleNames m ∧ "_" ++ name ++ "Deserializer" ∉ preambleNames m := by
  constructor
  all_goals
    intro h
    have hmem := preambleNames_subset m h
    rw [List.mem_cons, List.mem_cons, List.mem_cons, List.mem_cons, List.mem_singleton] at hmem
    rcases hmem with hmem | hmem | hmem | hmem | hmem
    all_goals
      have hends := congrArg (fun s : String => (s.toList.head?, s.toList.getLast?)) hmem
      simp [List.getLast?_cons] at hends

/-- The base classes of errors, which every models module starts with. -/
def baseErrors : List String := ["ServiceError", "ApiError", "UnknownApiError"]

/-- **A variant takes one of the names exactly if it is called like a base class of errors.** -/
theorem variant_mem_iff (union member : String) (m : Model) :
    className union ++ pascalCase member ∈ preambleNames m ↔ className union ++ pascalCase member ∈ baseErrors := by
  have hpre : preambleNames m = "logger" :: (if hasTimestamp m then ["_DEFAULT_TIMESTAMP"] else []) ++ baseErrors := rfl
  rw [hpre, List.mem_append, or_iff_right]
  intro hmem
  have hfirst : ∃ c rest, (className union ++ pascalCase member).toList = c :: rest ∧ (c = 'l' ∨ c = '_') := by
    rcases List.mem_cons.1 hmem with h | h
    · exact ⟨'l', _, congrArg String.toList h, .inl rfl⟩
    · split at h
      · exact ⟨'_', _, congrArg String.toList (List.mem_singleton.1 h), .inr rfl⟩
      · cases h
  obtain ⟨c, rest, hlist, hc⟩ := hfirst
  have hhead := variant_head hlist
  rcases hc with rfl | rfl
  · exact absurd hhead.1 (by decide)
  · exact hhead.2 rfl

end ClientGen
