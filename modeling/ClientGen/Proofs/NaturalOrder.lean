import ClientGen.Package.Project
import ClientGen.Proofs.IdTextOrder

/-!
# The natural order, and the list of dependencies

Keys are compared character by character, with a pair of numbers while both are inside a run of digits. That is the
lexicographic order of their parts, if a run of digits is one part: two keys that agree so far are at the same place of
the same part, and runs compare by their lengths and then by their numbers. So the natural order is a linear order,
whatever letters are spelled like and whatever number a run of digits is read as, and entries of one package are
neighbours once a list is sorted.

* `Text.compareNatural_eq`: texts compare by the parts of their keys, and then as they are.
* `sortedDependencies_canonical`: what the list of dependencies holds, and in which order.
-/

namespace ClientGen

namespace Text

/-! ### The parts of a key -/

/-- A part of a key: a run of digits, with its length and number, or another character. -/
structure KeyPart where
  /-- The place of the character among all characters; that of the digits if the part is a run of them. -/
  rank : Nat
  length : Nat := 0
  number : Nat := 0
deriving Ord

theorem KeyPart.compare_eq (p q : KeyPart) :
    compare p q = (compare p.rank q.rank).then ((compare p.length q.length).then (compare p.number q.number)) := by
  obtain ⟨rank, length, number⟩ := p
  obtain ⟨rank', length', number'⟩ := q
  show (compare rank rank').then ((compare length length').then ((compare number number').then .eq)) = _
  rw [Ordering.then_eq]

instance KeyPart.transOrd : Std.TransOrd KeyPart := by
  have hlex : (compare : KeyPart → KeyPart → Ordering) =
      compareLex (compareOn KeyPart.rank) (compareLex (compareOn KeyPart.length) (compareOn KeyPart.number)) := by
    funext p q
    exact KeyPart.compare_eq p q
  have h : Std.TransCmp (compareLex (compareOn KeyPart.rank)
    (compareLex (compareOn KeyPart.length) (compareOn KeyPart.number))) := inferInstance
  rwa [← hlex] at h

/-- A run of digits as a part. -/
def KeyPart.run (length number : Nat) : KeyPart := { rank := '0'.toNat, length, number }

/-- A character that is no digit as a part. -/
def KeyPart.sign (c : Char) : KeyPart := { rank := c.toNat }

/-- The parts of a key. Inside a run of digits, `run` holds its length and number so far. -/
def keyParts (extend : Nat → Nat → Nat) : Option (Nat × Nat) → List Char → List KeyPart
  | none, [] => []
  | none, c :: cs =>
    if c.isDigit then keyParts extend (some (1, digitValue c)) cs else .sign c :: keyParts extend none cs
  | some (length, number), [] => [.run length number]
  | some (length, number), c :: cs =>
    if c.isDigit then keyParts extend (some (length + 1, extend number (digitValue c))) cs
    else .run length number :: .sign c :: keyParts extend none cs

variable {extend : Nat → Nat → Nat}

theorem keyParts_some (extend : Nat → Nat → Nat) (length number : Nat) (cs : List Char) :
    ∃ length' number' rest, keyParts extend (some (length, number)) cs = .run length' number' :: rest ∧
      length ≤ length' := by
  induction cs generalizing length number with
  | nil => exact ⟨length, number, [], rfl, le_rfl⟩
  | cons c cs ih =>
    rw [keyParts]
    split
    · obtain ⟨length', number', rest, heq, hle⟩ := ih (length + 1) (extend number (digitValue c))
      exact ⟨length', number', rest, heq, by omega⟩
    · exact ⟨length, number, _, rfl, le_rfl⟩

theorem keyParts_cons (extend : Nat → Nat → Nat) (c : Char) (cs : List Char) :
    ∃ part rest, keyParts extend none (c :: cs) = part :: rest := by
  rw [keyParts]
  split
  · obtain ⟨_, _, _, heq, -⟩ := keyParts_some extend 1 (digitValue c) cs
    exact ⟨_, _, heq⟩
  · exact ⟨_, _, rfl⟩

theorem isDigit_iff {c : Char} : c.isDigit = true ↔ 48 ≤ c.toNat ∧ c.toNat ≤ 57 := by
  rw [Char.isDigit, Bool.and_eq_true, decide_eq_true_eq, decide_eq_true_eq]
  rfl

theorem compare_run (length length' number number' : Nat) :
    compare (KeyPart.run length number) (KeyPart.run length' number') =
      (compare length length').then (compare number number') := by
  rw [KeyPart.compare_eq]
  simp [KeyPart.run]

theorem compare_sign (c d : Char) : compare (KeyPart.sign c) (KeyPart.sign d) = compareChar c d := by
  rw [KeyPart.compare_eq]
  simp [KeyPart.sign, compareChar]

/-- A run of digits compares with another character as any of its digits does. -/
theorem compare_run_sign {c d : Char} (hc : c.isDigit = true) (hd : ¬ d.isDigit = true) (length number : Nat) :
    compare (KeyPart.run length number) (KeyPart.sign d) = compareChar c d ∧ compareChar c d ≠ .eq := by
  rw [isDigit_iff] at hc hd
  have hzero : '0'.toNat = 48 := rfl
  rw [KeyPart.compare_eq]
  simp only [KeyPart.run, KeyPart.sign, compareChar, hzero]
  rcases lt_or_gt_of_ne (show d.toNat ≠ 48 by omega) with h | h
  · rw [compare_gt_iff_gt.2 h, compare_gt_iff_gt.2 (show d.toNat < c.toNat by omega)]
    exact ⟨rfl, by decide⟩
  · rw [compare_lt_iff_lt.2 h, compare_lt_iff_lt.2 (show c.toNat < d.toNat by omega)]
    exact ⟨rfl, by decide⟩

theorem compare_run_keyParts {length length' : Nat} (h : length < length') (number number' : Nat)
    (rest : List KeyPart) (cs : List Char) :
    compare (KeyPart.run length number :: rest) (keyParts extend (some (length', number')) cs) = .lt := by
  obtain ⟨longer, _, _, heq, hle⟩ := keyParts_some extend length' number' cs
  rw [heq, List.compare_cons_cons, compare_run, compare_lt_iff_lt.2 (show length < longer by omega)]
  rfl

/-- Outside of runs, keys compare by their next characters, unless both are digits. -/
theorem compare_keyParts_none {a b : Char} (h : ¬ (a.isDigit && b.isDigit) = true) (as bs : List Char) :
    compare (keyParts extend none (a :: as)) (keyParts extend none (b :: bs)) =
      (compareChar a b).then (compare (keyParts extend none as) (keyParts extend none bs)) := by
  rw [keyParts, keyParts]
  by_cases ha : a.isDigit = true
  · have hb : ¬ b.isDigit = true := fun hb => h (by rw [ha, hb]; rfl)
    obtain ⟨length, number, rest, heq, -⟩ := keyParts_some extend 1 (digitValue a) as
    obtain ⟨hcompare, hne⟩ := compare_run_sign ha hb length number
    rw [if_pos ha, if_neg hb, heq, List.compare_cons_cons, hcompare]
    cases hab : compareChar a b with
    | eq => exact absurd hab hne
    | lt | gt => rfl
  · rw [if_neg ha]
    by_cases hb : b.isDigit = true
    · obtain ⟨length, number, rest, heq, -⟩ := keyParts_some extend 1 (digitValue b) bs
      obtain ⟨hcompare, hne⟩ := compare_run_sign hb ha length number
      have hswap : compareChar a b = (compareChar b a).swap := Std.OrientedOrd.eq_swap
      have hsign : compare (KeyPart.sign a) (.run length number) =
          (compare (.run length number) (KeyPart.sign a)).swap := Std.OrientedCmp.eq_swap
      rw [if_pos hb, heq, List.compare_cons_cons, hsign, hcompare, hswap]
      cases hba : compareChar b a with
      | eq => exact absurd hba hne
      | lt | gt => rfl
    · rw [if_neg hb, List.compare_cons_cons, compare_sign]

/-- **Keys compare as their parts do.** Two runs that both keys are inside of are of one length so far. -/
theorem compareKeys_eq (as bs : List Char) :
    compareKeys extend none as bs = compare (keyParts extend none as) (keyParts extend none bs) ∧
      ∀ length m n, compareKeys extend (some (m, n)) as bs =
        compare (keyParts extend (some (length, m)) as) (keyParts extend (some (length, n)) bs) := by
  -- both at once: a step leads into a run where both keys have a digit, and out of it where neither has one
  induction as generalizing bs with
  | nil =>
    cases bs with
    | nil =>
      refine ⟨rfl, fun length m n => ?_⟩
      simp only [compareKeys, keyParts, List.compare_cons_cons, compare_run]
      simp
    | cons b bs =>
      constructor
      · obtain ⟨part, rest, heq⟩ := keyParts_cons extend b bs
        rw [compareKeys, keyParts, heq, List.compare_nil_cons]
      · intro length m n
        rw [compareKeys, keyParts, keyParts]
        by_cases hb : b.isDigit = true
        · rw [if_pos hb, if_pos hb, compare_run_keyParts (Nat.lt_succ_self length)]
        · rw [if_neg hb, if_neg hb, List.compare_cons_cons, compare_run, compare_eq_iff_eq.2 rfl]
          cases compare m n <;> rfl
  | cons a as ih =>
    cases bs with
    | nil =>
      constructor
      · obtain ⟨part, rest, heq⟩ := keyParts_cons extend a as
        rw [compareKeys, heq, keyParts, List.compare_cons_nil]
      · intro length m n
        rw [compareKeys, keyParts, keyParts]
        by_cases ha : a.isDigit = true
        · rw [if_pos ha, if_pos ha, Std.OrientedCmp.gt_of_lt (compare_run_keyParts (Nat.lt_succ_self length) _ _ _ _)]
        · rw [if_neg ha, if_neg ha, List.compare_cons_cons, compare_run, compare_eq_iff_eq.2 rfl]
          cases compare m n <;> rfl
    | cons b bs =>
      constructor
      · rw [compareKeys]
        split
        · rename_i hboth
          obtain ⟨ha, hb⟩ := Bool.and_eq_true_iff.1 hboth
          rw [(ih bs).2 1, keyParts, keyParts, if_pos ha, if_pos hb]
        · rename_i hboth
          rw [compare_keyParts_none hboth, (ih bs).1]
          cases compareChar a b <;> rfl
      · intro length m n
        rw [compareKeys, keyParts, keyParts]
        by_cases ha : a.isDigit = true
        · by_cases hb : b.isDigit = true
          · rw [if_pos ha, if_pos hb, if_pos ha, if_pos hb, (ih bs).2 (length + 1)]
          · rw [if_pos ha, if_neg hb, if_pos ha, if_neg hb,
              Std.OrientedCmp.gt_of_lt (compare_run_keyParts (Nat.lt_succ_self length) _ _ _ _)]
        · by_cases hb : b.isDigit = true
          · rw [if_neg ha, if_pos hb, if_neg ha, if_pos hb, compare_run_keyParts (Nat.lt_succ_self length)]
          · rw [if_neg ha, if_neg hb, if_neg ha, if_neg hb, List.compare_cons_cons, List.compare_cons_cons, compare_run,
              compare_sign, compare_eq_iff_eq.2 rfl, (ih bs).1]
            cases compare m n <;> cases compareChar a b <;> rfl

/-! ### The order of texts -/

theorem compareChar_eq (a b : Char) : compareChar a b = compare a b := by
  unfold compareChar
  rcases lt_trichotomy a b with h | rfl | h
  · rw [compare_lt_iff_lt.2 h, compare_lt_iff_lt.2 (show a.toNat < b.toNat from h)]
  · rw [compare_eq_iff_eq.2 rfl, compare_eq_iff_eq.2 rfl]
  · rw [compare_gt_iff_gt.2 h, compare_gt_iff_gt.2 (show b.toNat < a.toNat from h)]

theorem compareChars_eq (xs ys : List Char) : compareChars xs ys = compare xs ys := by
  induction xs generalizing ys with
  | nil => cases ys <;> rfl
  | cons x xs ih =>
    cases ys with
    | nil => rfl
    | cons y ys =>
      rw [compareChars, List.compare_cons_cons, compareChar_eq, ih]
      cases compare x y <;> rfl

/-- The parts of a text that natural orders look at first. -/
def naturalParts (c : Collation) (s : String) : List KeyPart := keyParts c.extend none (naturalKey c.spelling s)

/-- **Texts compare by the parts of their keys**, and as they are if these agree. -/
theorem compareNatural_eq (c : Collation) (s t : String) :
    compareNatural c s t = (compare (naturalParts c s) (naturalParts c t)).then (compare s t) := by
  rw [compareNatural, (compareKeys_eq _ _).1, compareChars_eq, compare_toList]
  change _ = (compare (keyParts c.extend none _) (keyParts c.extend none _)).then _
  generalize compare (keyParts c.extend none (naturalKey c.spelling s)) _ = x
  cases x <;> rfl

instance compareNatural_transCmp (c : Collation) : Std.TransCmp (compareNatural c) := by
  have hlex : compareNatural c = compareLex (compareOn (naturalParts c)) compare := by
    funext s t
    exact compareNatural_eq c s t
  rw [hlex]
  infer_instance

/-- Only equal texts compare equal. -/
instance compareNatural_lawfulEqCmp (c : Collation) : Std.LawfulEqCmp (compareNatural c) where
  eq_of_compare {s t} h := by
    rw [compareNatural_eq, Ordering.then_eq_eq] at h
    exact Std.LawfulEqOrd.eq_of_compare h.2

end Text

/-! ### The list of dependencies -/

section Dependencies

variable (c : Text.Collation)

/-- Does the package of the first come before that of the second, or are both one? -/
def Dependency.atMost (a b : Dependency) : Bool := (Text.compareNatural c a.package b.package).isLE

theorem Dependency.atMost_trans (a b d : Dependency) (hab : a.atMost c b = true) (hbd : b.atMost c d = true) :
    a.atMost c d = true :=
  Std.TransCmp.isLE_trans hab hbd

theorem Dependency.atMost_total (a b : Dependency) : (a.atMost c b || b.atMost c a) = true := by
  have hswap : Text.compareNatural c b.package a.package = (Text.compareNatural c a.package b.package).swap :=
    Std.OrientedCmp.eq_swap
  unfold atMost
  rw [hswap]
  cases Text.compareNatural c a.package b.package <;> rfl

/-- The first of the dependencies on a package. -/
def Dependency.firstOf (package : String) (ds : List Dependency) : Option Dependency :=
  ds.find? fun d => d.package == package

theorem firstOf_cons (package : String) (d : Dependency) (rest : List Dependency) :
    Dependency.firstOf package (d :: rest) =
      if d.package = package then some d else Dependency.firstOf package rest := by
  unfold Dependency.firstOf
  by_cases h : d.package = package <;> simp [h]

theorem firstOf_isSome {package : String} {ds : List Dependency} :
    (Dependency.firstOf package ds).isSome = true ↔ package ∈ ds.map Dependency.package := by
  simp [Dependency.firstOf]

/-- **Sorting keeps the first dependency on a package**: those on one package keep their order. -/
theorem firstOf_mergeSort (package : String) (ds : List Dependency) :
    Dependency.firstOf package (ds.mergeSort (Dependency.atMost c)) = Dependency.firstOf package ds := by
  let ofPackage : List Dependency → List Dependency := List.filter fun d => d.package == package
  have hequal : (ofPackage ds).Pairwise fun a b => a.atMost c b = true := by
    refine List.pairwise_of_forall_mem_list fun a ha b hb => ?_
    have ha : a.package = package := beq_iff_eq.1 (List.mem_filter.1 ha).2
    have hb : b.package = package := beq_iff_eq.1 (List.mem_filter.1 hb).2
    have hself : Text.compareNatural c package package = .eq := Std.ReflCmp.compare_self
    rw [Dependency.atMost, ha, hb, hself]
    rfl
  -- they are in order as they stand, and sorting keeps what is
  have hsublist : (ofPackage ds).Sublist (ofPackage (ds.mergeSort (Dependency.atMost c))) := by
    have h := List.sublist_mergeSort (Dependency.atMost_trans c) (Dependency.atMost_total c) hequal List.filter_sublist
    simpa [ofPackage] using h.filter fun d => d.package == package
  have hlength : (ofPackage ds).length = (ofPackage (ds.mergeSort (Dependency.atMost c))).length :=
    ((List.mergeSort_perm ds _).filter _).length_eq.symm
  have hsame := hsublist.eq_of_length hlength
  unfold Dependency.firstOf
  rw [← List.head?_filter, ← List.head?_filter]
  exact congrArg List.head? hsame.symm

theorem firstOf_dropSamePackage {package previous : String} (h : package ≠ previous) (ds : List Dependency) :
    Dependency.firstOf package (dropSamePackage previous ds) = Dependency.firstOf package ds := by
  induction ds generalizing previous with
  | nil => rfl
  | cons d rest ih =>
    rw [dropSamePackage, firstOf_cons]
    by_cases hsame : previous = d.package
    · rw [if_pos (beq_iff_eq.2 hsame), ih h, if_neg (hsame ▸ h.symm)]
    · rw [if_neg (by simpa using hsame), firstOf_cons]
      by_cases hd : d.package = package
      · rw [if_pos hd, if_pos hd]
      · rw [if_neg hd, if_neg hd, ih (Ne.symm hd)]

variable {c}

/-- What is left of sorted dependencies ascends strictly, from the package before. -/
theorem dropSamePackage_ascending {previous : String} {ds : List Dependency}
    (hsorted : ds.Pairwise fun a b => a.atMost c b = true)
    (hprevious : ∀ d ∈ ds, (Text.compareNatural c previous d.package).isLE = true) :
    (∀ d ∈ dropSamePackage previous ds, Text.compareNatural c previous d.package = .lt) ∧
      (dropSamePackage previous ds).Pairwise fun a b => Text.compareNatural c a.package b.package = .lt := by
  induction ds generalizing previous with
  | nil => exact ⟨by simp [dropSamePackage], .nil⟩
  | cons d rest ih =>
    obtain ⟨hfirst, hrest⟩ := List.pairwise_cons.1 hsorted
    rw [dropSamePackage]
    by_cases hsame : previous = d.package
    · rw [if_pos (beq_iff_eq.2 hsame)]
      exact ih hrest fun e he => hprevious e (List.mem_cons_of_mem _ he)
    · rw [if_neg (by simpa using hsame)]
      obtain ⟨habove, hascending⟩ := ih hrest hfirst
      have hlt : Text.compareNatural c previous d.package = .lt := by
        have hle := hprevious d List.mem_cons_self
        cases hc : Text.compareNatural c previous d.package with
        | lt => rfl
        | eq => exact absurd (Std.LawfulEqCmp.eq_of_compare hc) hsame
        | gt => rw [hc] at hle; cases hle
      refine ⟨fun e he => ?_, List.pairwise_cons.2 ⟨habove, hascending⟩⟩
      rcases List.mem_cons.1 he with rfl | he
      · exact hlt
      · exact Std.TransCmp.lt_trans hlt (habove e he)

variable (c) (ds : List Dependency)

/-- The list is empty as the sorted dependencies are, or begins with the first of them. -/
theorem sortedDependencies_cases :
    ds.mergeSort (Dependency.atMost c) = [] ∧ sortedDependencies ds c = [] ∨
      ∃ first rest, ds.mergeSort (Dependency.atMost c) = first :: rest ∧
        sortedDependencies ds c = first :: dropSamePackage first.package rest := by
  have hle : Dependency.atMost c = fun a b => (Text.compareNatural c a.package b.package).isLE := rfl
  unfold sortedDependencies
  rw [← hle]
  cases ds.mergeSort (Dependency.atMost c) with
  | nil => exact .inl ⟨rfl, rfl⟩
  | cons first rest => exact .inr ⟨first, rest, rfl, rfl⟩

theorem sortedDependencies_ascending :
    (sortedDependencies ds c).Pairwise fun a b => Text.compareNatural c a.package b.package = .lt := by
  have hsorted := List.pairwise_mergeSort (Dependency.atMost_trans c) (Dependency.atMost_total c) ds
  obtain ⟨-, hempty⟩ | ⟨first, rest, hds, heq⟩ := sortedDependencies_cases c ds
  · rw [hempty]
    exact .nil
  · rw [hds] at hsorted
    obtain ⟨hfirst, hrest⟩ := List.pairwise_cons.1 hsorted
    rw [heq]
    exact List.pairwise_cons.2 (dropSamePackage_ascending hrest hfirst)

theorem firstOf_sortedDependencies (package : String) :
    Dependency.firstOf package (sortedDependencies ds c) = Dependency.firstOf package ds := by
  rw [← firstOf_mergeSort c package ds]
  obtain ⟨hds, hempty⟩ | ⟨first, rest, hds, heq⟩ := sortedDependencies_cases c ds
  · rw [hds, hempty]
  · rw [hds, heq, firstOf_cons, firstOf_cons]
    by_cases hfirst : first.package = package
    · rw [if_pos hfirst, if_pos hfirst]
    · rw [if_neg hfirst, if_neg hfirst, firstOf_dropSamePackage (Ne.symm hfirst)]

theorem firstOf_of_nodup {ds : List Dependency} (h : (ds.map Dependency.package).Nodup) {d : Dependency}
    (hd : d ∈ ds) : Dependency.firstOf d.package ds = some d := by
  cases hfound : Dependency.firstOf d.package ds with
  | none =>
    have hsome := firstOf_isSome.2 (List.mem_map_of_mem hd)
    rw [hfound] at hsome
    cases hsome
  | some e =>
    have he : e.package = d.package := by simpa using List.find?_some hfound
    rw [List.inj_on_of_nodup_map h (List.mem_of_find?_eq_some hfound) hd he]

end Dependencies

end ClientGen
