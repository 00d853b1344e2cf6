import ClientGen.Dictionary
import Mathlib.Data.List.Nodup
import Mathlib.Order.Compare

/-!
# What a dictionary holds after an insertion

* `Dictionary.get?_insert`: the value that was put, under its own key, and the old values under all others.
* `Dictionary.insert_perm`: a key that is new adds its entry to the others.
* `Dictionary.mem_insert`: an entry has the value that was put, or was there before.
* `Dictionary.insert_ascending`, `Dictionary.insertNew_ascending`: the keys stay in ascending order.
* `Dictionary.insertNew_of_mem`: a key that is there is not put again.
* `ascending_ext`: a list in ascending order is determined by its elements. `Dictionary.Ascending.ext`: a dictionary is
  determined by its values.
-/

namespace ClientGen.Dictionary

variable {κ : Type} {α : Type u} [Ord κ] [Std.TransOrd κ]

/-- **An insertion changes the value of its own key only.** Keys that compare equal are one key. -/
theorem get?_insert (key key' : κ) (value : α) (d : Dictionary κ α) :
    get? key (insert key' value d) = if compare key key' = .eq then some value else get? key d := by
  induction d with
  | nil => by_cases h : compare key key' = .eq <;> simp [insert, get?, h]
  | cons e rest ih =>
    obtain ⟨k, v⟩ := e
    unfold insert
    cases hk : compare key' k with
    | lt => by_cases h : compare key key' = .eq <;> simp [get?, h]
    | eq =>
      -- the key that is present stays, and compares like the new one
      have hsame : compare key k = compare key key' := (Std.TransCmp.congr_right hk).symm
      by_cases h : compare key key' = .eq <;> simp [get?, h, hsame]
    | gt =>
      by_cases h : compare key key' = .eq
      · have hne : compare key k ≠ .eq := by
          rw [Std.TransCmp.congr_left h, hk]
          decide
        rw [if_pos h] at ih ⊢
        simpa [get?, hne] using ih
      · rw [if_neg h] at ih ⊢
        by_cases hkk : compare key k = .eq
        · simp [get?, hkk]
        · simpa [get?, hkk] using ih

omit [Std.TransOrd κ] in
theorem insert_perm {key : κ} {value : α} {d : Dictionary κ α} (h : ∀ e ∈ d, compare key e.1 ≠ .eq) :
    (insert key value d).Perm ((key, value) :: d) := by
  induction d with
  | nil => rfl
  | cons e rest ih =>
    obtain ⟨k, v⟩ := e
    have hk : compare key k ≠ .eq := h (k, v) List.mem_cons_self
    unfold insert
    cases hc : compare key k with
    | lt => rfl
    | eq => exact absurd hc hk
    | gt =>
      have hrest := ih fun e he => h e (List.mem_cons_of_mem _ he)
      exact (hrest.cons (k, v)).trans (.swap _ _ _)

omit [Std.TransOrd κ] in
theorem compare_ne_of_not_has {key : κ} {d : Dictionary κ α} (h : ¬ has key d = true) :
    ∀ e ∈ d, compare key e.1 ≠ .eq := by
  intro e he heq
  apply h
  rw [has, get?, Option.isSome_map, List.find?_isSome]
  exact ⟨e, he, beq_iff_eq.2 heq⟩

omit [Std.TransOrd κ] in
/-- An entry after an insertion has the value that was put, and a key that compares like the given one; or it was there
before. -/
theorem mem_insert {key : κ} {value : α} {d : Dictionary κ α} {e : κ × α} (h : e ∈ insert key value d) :
    (e.1 = key ∨ compare key e.1 = .eq) ∧ e.2 = value ∨ e ∈ d := by
  induction d with
  | nil =>
    cases List.mem_singleton.1 h
    exact .inl ⟨.inl rfl, rfl⟩
  | cons entry rest ih =>
    obtain ⟨k, v⟩ := entry
    unfold insert at h
    cases hk : compare key k with
    | lt =>
      rw [hk] at h
      rcases List.mem_cons.1 h with rfl | h
      · exact .inl ⟨.inl rfl, rfl⟩
      · exact .inr h
    | eq =>
      rw [hk] at h
      rcases List.mem_cons.1 h with rfl | h
      · exact .inl ⟨.inr hk, rfl⟩
      · exact .inr (List.mem_cons_of_mem _ h)
    | gt =>
      rw [hk] at h
      rcases List.mem_cons.1 h with rfl | h
      · exact .inr List.mem_cons_self
      · exact (ih h).imp_right (List.mem_cons_of_mem _)

/-- The keys are in ascending order, so that each stands once. -/
def Ascending (d : Dictionary κ α) : Prop := d.Pairwise fun a b => compare a.1 b.1 = .lt

theorem insert_ascending (key : κ) (value : α) {d : Dictionary κ α} (h : Ascending d) :
    Ascending (insert key value d) := by
  unfold Ascending at *
  induction d with
  | nil => exact List.pairwise_singleton _ _
  | cons e rest ih =>
    obtain ⟨k, v⟩ := e
    obtain ⟨hfirst, hrest⟩ := List.pairwise_cons.1 h
    unfold insert
    cases hk : compare key k with
    | lt =>
      refine List.pairwise_cons.2 ⟨fun e he => ?_, h⟩
      rcases List.mem_cons.1 he with rfl | he
      · exact hk
      · exact Std.TransCmp.lt_trans hk (hfirst e he)
    | eq => exact List.pairwise_cons.2 ⟨hfirst, hrest⟩
    | gt =>
      refine List.pairwise_cons.2 ⟨fun e he => ?_, ih hrest⟩
      have hlt : compare k key = .lt := Std.OrientedCmp.lt_of_gt hk
      rcases mem_insert he with ⟨hkey | hkey, -⟩ | he
      · rw [hkey]
        exact hlt
      · rw [← Std.TransCmp.congr_right hkey]
        exact hlt
      · exact hfirst e he

theorem Ascending.nodup {d : Dictionary κ α} (h : Ascending d) : (d.map Prod.fst).Nodup := by
  refine List.pairwise_map.2 (h.imp fun {a b} hlt heq => ?_)
  have hself : compare b.1 b.1 = .eq := Std.ReflCmp.compare_self
  rw [heq, hself] at hlt
  cases hlt

omit [Std.TransOrd κ] in
theorem mem_insertNew {key : κ} {value : α} {d : Dictionary κ α} {e : κ × α} (h : e ∈ insertNew key value d) :
    e = (key, value) ∨ e ∈ d := by
  induction d with
  | nil => exact .inl (List.mem_singleton.1 h)
  | cons entry rest ih =>
    obtain ⟨k, v⟩ := entry
    unfold insertNew at h
    cases hk : compare key k with
    | lt =>
      rw [hk] at h
      exact List.mem_cons.1 h
    | eq =>
      rw [hk] at h
      exact .inr h
    | gt =>
      rw [hk] at h
      rcases List.mem_cons.1 h with rfl | h
      · exact .inr List.mem_cons_self
      · exact (ih h).imp_right (List.mem_cons_of_mem _)

omit [Std.TransOrd κ] in
theorem mem_insertNew_of_mem {key : κ} {value : α} {d : Dictionary κ α} {e : κ × α} (h : e ∈ d) :
    e ∈ insertNew key value d := by
  induction d with
  | nil => cases h
  | cons entry rest ih =>
    obtain ⟨k, v⟩ := entry
    unfold insertNew
    cases compare key k with
    | lt => exact List.mem_cons_of_mem _ h
    | eq => exact h
    | gt =>
      rcases List.mem_cons.1 h with rfl | h
      · exact List.mem_cons_self
      · exact List.mem_cons_of_mem _ (ih h)

/-- The key is there afterwards, in its own spelling or in that of an entry before. -/
theorem exists_mem_insertNew (key : κ) (value : α) (d : Dictionary κ α) :
    ∃ e ∈ insertNew key value d, compare key e.1 = .eq := by
  induction d with
  | nil => exact ⟨(key, value), List.mem_cons_self, Std.ReflCmp.compare_self⟩
  | cons entry rest ih =>
    obtain ⟨k, v⟩ := entry
    unfold insertNew
    cases hk : compare key k with
    | lt => exact ⟨(key, value), List.mem_cons_self, Std.ReflCmp.compare_self⟩
    | eq => exact ⟨(k, v), List.mem_cons_self, hk⟩
    | gt =>
      obtain ⟨e, he, hkey⟩ := ih
      exact ⟨e, List.mem_cons_of_mem _ he, hkey⟩

theorem insertNew_ascending (key : κ) (value : α) {d : Dictionary κ α} (h : Ascending d) :
    Ascending (insertNew key value d) := by
  unfold Ascending at *
  induction d with
  | nil => exact List.pairwise_singleton _ _
  | cons entry rest ih =>
    obtain ⟨k, v⟩ := entry
    obtain ⟨hfirst, hrest⟩ := List.pairwise_cons.1 h
    unfold insertNew
    cases hk : compare key k with
    | lt =>
      refine List.pairwise_cons.2 ⟨fun e he => ?_, h⟩
      rcases List.mem_cons.1 he with rfl | he
      · exact hk
      · exact Std.TransCmp.lt_trans hk (hfirst e he)
    | eq => exact h
    | gt =>
      refine List.pairwise_cons.2 ⟨fun e he => ?_, ih hrest⟩
      rcases mem_insertNew he with rfl | he
      · exact Std.OrientedCmp.lt_of_gt hk
      · exact hfirst e he

/-- **A key that is there** is not put again. -/
theorem insertNew_of_mem {key : κ} {value : α} {d : Dictionary κ α} {e : κ × α} (h : Ascending d) (he : e ∈ d)
    (hkey : compare key e.1 = .eq) : insertNew key value d = d := by
  unfold Ascending at h
  induction d with
  | nil => cases he
  | cons entry rest ih =>
    obtain ⟨k, v⟩ := entry
    obtain ⟨hfirst, hrest⟩ := List.pairwise_cons.1 h
    -- the key compares with the first one as the entry's does
    have hcompare : compare key k = compare e.1 k := Std.TransCmp.congr_left hkey
    unfold insertNew
    rcases List.mem_cons.1 he with rfl | he
    · rw [hkey]
    · rw [hcompare, Std.OrientedCmp.gt_of_lt (hfirst e he)]
      exact congrArg ((k, v) :: ·) (ih hrest he)

section

variable {κ : Type} {α : Type u} [Ord κ] [Std.LawfulEqOrd κ] {key : κ} {value : α} {d : Dictionary κ α}

/-- If keys that compare equal are equal, the entry is the one that was put. -/
theorem mem_insert_lawful {e : κ × α} (h : e ∈ insert key value d) : e = (key, value) ∨ e ∈ d := by
  refine (mem_insert h).imp_left ?_
  rintro ⟨hkey | hkey, hvalue⟩
  · exact Prod.ext hkey hvalue
  · exact Prod.ext (Std.LawfulEqOrd.eq_of_compare hkey).symm hvalue

theorem mem_of_get? (h : get? key d = some value) : (key, value) ∈ d := by
  obtain ⟨e, he, rfl⟩ := Option.map_eq_some_iff.1 h
  have hkey := List.find?_some he
  have heq : key = e.1 := Std.LawfulEqOrd.eq_of_compare (eq_of_beq hkey)
  rw [heq]
  exact List.mem_of_find?_eq_some he

end

end ClientGen.Dictionary

namespace ClientGen

theorem mem_insertSorted {α : Type} [Ord α] {a b : α} {l : List α} (h : b ∈ insertSorted a l) : b = a ∨ b ∈ l := by
  induction l with
  | nil => exact .inl (List.mem_singleton.1 h)
  | cons c rest ih =>
    unfold insertSorted at h
    cases hc : compare a c with
    | lt =>
      rw [hc] at h
      exact List.mem_cons.1 h
    | eq =>
      rw [hc] at h
      exact .inr h
    | gt =>
      rw [hc] at h
      rcases List.mem_cons.1 h with rfl | h
      · exact .inr List.mem_cons_self
      · exact (ih h).imp_right (List.mem_cons_of_mem _)

section Ascending

variable {α κ : Type} [Ord κ] [Std.TransOrd κ]

theorem ascending_nodup (key : α → κ) {l : List α} (h : l.Pairwise fun a b => compare (key a) (key b) = .lt) :
    l.Nodup := by
  refine h.imp fun {a b} hlt heq => ?_
  rw [heq, Std.ReflOrd.compare_self] at hlt
  cases hlt

theorem ascending_ext (key : α → κ) {l l' : List α} (h : l.Pairwise fun a b => compare (key a) (key b) = .lt)
    (h' : l'.Pairwise fun a b => compare (key a) (key b) = .lt) (hmem : ∀ a, a ∈ l ↔ a ∈ l') : l = l' := by
  have hperm : l.Perm l' := (List.perm_ext_iff_of_nodup (ascending_nodup key h) (ascending_nodup key h')).2 hmem
  refine hperm.eq_of_pairwise ?_ h h'
  intro a b _ _ hab hba
  exact absurd hba (Std.OrientedCmp.not_lt_of_lt hab)

omit [Std.TransOrd κ] in
theorem mem_insertSorted_iff [Std.LawfulEqOrd κ] {a b : κ} {l : List κ} : b ∈ insertSorted a l ↔ b = a ∨ b ∈ l := by
  refine ⟨mem_insertSorted, fun h => ?_⟩
  induction l with
  | nil => exact List.mem_singleton.2 (h.resolve_right List.not_mem_nil)
  | cons c rest ih =>
    unfold insertSorted
    cases hc : compare a c with
    | lt => exact List.mem_cons.2 h
    | eq =>
      rcases h with rfl | h
      · exact List.mem_cons.2 (.inl (Std.LawfulEqOrd.eq_of_compare hc))
      · exact h
    | gt =>
      rcases h with rfl | h
      · exact List.mem_cons_of_mem _ (ih (.inl rfl))
      · rcases List.mem_cons.1 h with rfl | h
        · exact List.mem_cons_self
        · exact List.mem_cons_of_mem _ (ih (.inr h))

theorem insertSorted_ascending (a : κ) {l : List κ} (h : l.Pairwise fun a b => compare a b = .lt) :
    (insertSorted a l).Pairwise fun a b => compare a b = .lt := by
  induction l with
  | nil => exact List.pairwise_singleton _ _
  | cons c rest ih =>
    obtain ⟨hfirst, hrest⟩ := List.pairwise_cons.1 h
    unfold insertSorted
    cases hc : compare a c with
    | lt =>
      refine List.pairwise_cons.2 ⟨fun b hb => ?_, h⟩
      rcases List.mem_cons.1 hb with rfl | hb
      · exact hc
      · exact Std.TransCmp.lt_trans hc (hfirst b hb)
    | eq => exact h
    | gt =>
      refine List.pairwise_cons.2 ⟨fun b hb => ?_, ih hrest⟩
      rcases mem_insertSorted hb with rfl | hb
      · exact Std.OrientedCmp.lt_of_gt hc
      · exact hfirst b hb

end Ascending

namespace Dictionary

variable {κ : Type} {α : Type} [Ord κ] [Std.TransOrd κ] [Std.LawfulEqOrd κ] {d : Dictionary κ α}

theorem get?_eq_some_iff (h : Ascending d) {key : κ} {value : α} : get? key d = some value ↔ (key, value) ∈ d := by
  refine ⟨mem_of_get?, fun hmem => ?_⟩
  cases hget : get? key d with
  | none =>
    have hnone := List.find?_eq_none.1 (Option.map_eq_none_iff.1 hget) _ hmem
    exact absurd (beq_iff_eq.2 Std.ReflOrd.compare_self) hnone
  | some other =>
    have hsame : (key, other) = (key, value) := List.inj_on_of_nodup_map h.nodup (mem_of_get? hget) hmem rfl
    cases hsame
    rfl

/-- **A dictionary is determined by its values.** -/
theorem Ascending.ext {d' : Dictionary κ α} (h : Ascending d) (h' : Ascending d')
    (hget : ∀ key, get? key d = get? key d') : d = d' := by
  refine ascending_ext Prod.fst h h' fun e => ?_
  rw [← get?_eq_some_iff h, ← get?_eq_some_iff h', hget]

end Dictionary

end ClientGen
