import ClientGen.Decimal.Shortest
import Mathlib

/-!
# The shortest decimal reads back

Quotients are rationals, and the tests on them are tests on rationals. The decimal that `shortest` finds
for `m · 2 ^ q` lies among the rationals that read back as it: half a unit to either side, or a quarter
below a power of two. Every grid that is tried has its answer in there, and the last one, of eighteen
digits, has one at all, since its unit is less than `2 ^ q / 2`.

* `pow_leadExponent_le`: the exponent of the first digit.
* `shortest_holds`: the decimal found lies in the interval of its value.
-/

namespace ClientGen.Decimal

namespace Quotient

/-- The rational that the quotient is. -/
def value (a : Quotient) : ℚ := a.num / a.den

variable {a b : Quotient}

/-- Both kinds of quotient: a power stands above or below the line. -/
theorem value_power {base : ℕ} (hbase : base ≠ 0) (n : ℕ) (e : ℤ) :
    (if 0 ≤ e then ⟨n * Nat.pow base e.toNat, 1⟩ else ⟨n, Nat.pow base (-e).toNat⟩ : Quotient).value =
      n * (base : ℚ) ^ e := by
  have hb : (base : ℚ) ≠ 0 := Nat.cast_ne_zero.2 hbase
  by_cases he : 0 ≤ e
  · obtain ⟨k, rfl⟩ := Int.eq_ofNat_of_zero_le he
    simp [value]
  · obtain ⟨k, hk⟩ := Int.eq_ofNat_of_zero_le (show 0 ≤ -e by omega)
    obtain rfl : e = -(k : ℤ) := by omega
    rw [if_neg he]
    simp [value, div_eq_mul_inv]

theorem value_ofBinary (n : ℕ) (e : ℤ) : (ofBinary n e).value = n * 2 ^ e := value_power two_ne_zero n e

theorem value_ofDecimal (n : ℕ) (e : ℤ) : (ofDecimal n e).value = n * 10 ^ e := by
  exact_mod_cast @value_power 10 (by decide) n e

theorem den_ofBinary (n : ℕ) (e : ℤ) : 0 < (ofBinary n e).den := by
  unfold ofBinary
  split
  · exact one_pos
  · exact Nat.pow_pos two_pos

theorem den_ofDecimal (n : ℕ) (e : ℤ) : 0 < (ofDecimal n e).den := by
  unfold ofDecimal
  split
  · exact one_pos
  · exact Nat.pow_pos (by decide)

theorem lt_iff (ha : 0 < a.den) (hb : 0 < b.den) : a.lt b = true ↔ a.value < b.value := by
  unfold lt value
  rw [div_lt_div_iff₀ (by exact_mod_cast ha) (by exact_mod_cast hb), decide_eq_true_eq]
  norm_cast

theorem le_iff (ha : 0 < a.den) (hb : 0 < b.den) : a.le b = true ↔ a.value ≤ b.value := by
  unfold le value
  rw [div_le_div_iff₀ (by exact_mod_cast ha) (by exact_mod_cast hb), decide_eq_true_eq]
  norm_cast

end Quotient

/-- The rationals of an interval. -/
def Interval.Holds (i : Interval) (x : ℚ) : Prop :=
  if i.closed then i.low.value ≤ x ∧ x ≤ i.high.value else i.low.value < x ∧ x < i.high.value

theorem Interval.contains_iff {i : Interval} {d : Quotient} (hlow : 0 < i.low.den) (hhigh : 0 < i.high.den)
    (hd : 0 < d.den) : i.contains d = true ↔ i.Holds d.value := by
  unfold contains Holds
  split
  · rw [Bool.and_eq_true, Quotient.le_iff hlow hd, Quotient.le_iff hd hhigh]
  · rw [Bool.and_eq_true, Quotient.lt_iff hlow hd, Quotient.lt_iff hd hhigh]

/-- The rational that digits with the exponent of the last one are. -/
def Digits.value (d : Digits) : ℚ := d.digits * 10 ^ d.exponent

/-! ## The first digit -/

theorem wholeDigits_le (num : ℕ) : ∀ (fuel den : ℕ), 0 < wholeDigits num den fuel →
    den * 10 ^ (wholeDigits num den fuel - 1) ≤ num := by
  intro fuel
  induction fuel with
  | zero => exact fun den h => absurd h (lt_irrefl 0)
  | succ fuel ih =>
    intro den h
    unfold wholeDigits at h ⊢
    split at h
    · rename_i hle
      rw [if_pos hle, Nat.add_sub_cancel]
      rcases Nat.eq_zero_or_pos (wholeDigits num (den * 10) fuel) with hzero | hpos
      · rw [hzero]
        simpa using hle
      · have hmore := ih (den * 10) hpos
        rwa [mul_assoc, ← pow_succ', Nat.sub_add_cancel hpos] at hmore
    · exact absurd h (lt_irrefl 0)

theorem le_leadingZeros (den : ℕ) : ∀ (fuel num : ℕ), den ≤ num * 10 ^ fuel →
    den ≤ num * 10 ^ leadingZeros num den fuel := by
  intro fuel
  induction fuel with
  | zero => exact fun num h => h
  | succ fuel ih =>
    intro num h
    unfold leadingZeros
    split
    · rw [pow_succ', ← mul_assoc] at h ⊢
      exact ih (num * 10) h
    · rename_i hlt
      simpa using hlt

/-- The value has a digit at its leading exponent, if it is not too small for the search. -/
theorem pow_leadExponent_le {v : Quotient} (hden : 0 < v.den) (hreach : v.den ≤ v.num * 10 ^ 400) :
    (10 : ℚ) ^ leadExponent v ≤ v.value := by
  have hd : (0 : ℚ) < v.den := by exact_mod_cast hden
  unfold leadExponent Quotient.value
  -- Below one, zeros stand between the point and the first digit; from one on, digits are counted up to the point.
  split
  · have hzeros : (v.den : ℚ) ≤ v.num * 10 ^ leadingZeros v.num v.den 400 := by
      exact_mod_cast le_leadingZeros v.den 400 v.num hreach
    rw [zpow_neg, zpow_natCast, le_div_iff₀ hd, inv_mul_le_iff₀ (by positivity), mul_comm]
    exact hzeros
  · rename_i hlt
    have hpos : 0 < wholeDigits v.num v.den 400 := by
      unfold wholeDigits
      rw [if_pos (not_lt.1 hlt)]
      exact Nat.succ_pos _
    have hwhole := wholeDigits_le v.num 400 v.den hpos
    have hexp : (wholeDigits v.num v.den 400 : ℤ) - 1 = (wholeDigits v.num v.den 400 - 1 : ℕ) := by omega
    rw [hexp, zpow_natCast, le_div_iff₀ hd, mul_comm]
    exact_mod_cast hwhole

/-! ## The grids -/

/-- How many units of a grid a value holds. -/
def gridFloor (v : Quotient) (unit : ℤ) : ℕ :=
  if 0 ≤ unit then v.num / (v.den * Nat.pow 10 unit.toNat) else v.num * Nat.pow 10 (-unit).toNat / v.den

theorem gridFloor_def (v : Quotient) (unit : ℤ) :
    (if 0 ≤ unit then v.num / (v.den * Nat.pow 10 unit.toNat) else v.num * Nat.pow 10 (-unit).toNat / v.den) =
      gridFloor v unit := rfl

theorem gridFloor_eq (v : Quotient) (unit : ℤ) : gridFloor v unit = ⌊v.value / 10 ^ unit⌋₊ := by
  unfold gridFloor Quotient.value
  by_cases hunit : 0 ≤ unit
  · obtain ⟨k, rfl⟩ := Int.eq_ofNat_of_zero_le hunit
    rw [if_pos hunit, ← Nat.floor_div_eq_div (K := ℚ)]
    congr 1
    simp [div_div]
  · obtain ⟨k, hk⟩ := Int.eq_ofNat_of_zero_le (show 0 ≤ -unit by omega)
    obtain rfl : unit = -(k : ℤ) := by omega
    rw [if_neg hunit, ← Nat.floor_div_eq_div (K := ℚ)]
    congr 1
    simp
    ring

theorem lt_gridFloor_succ (v : Quotient) (unit : ℤ) : v.value < ((gridFloor v unit : ℚ) + 1) * 10 ^ unit := by
  rw [gridFloor_eq, ← div_lt_iff₀ (by positivity)]
  exact Nat.lt_floor_add_one _

theorem gridFloor_succ_le (v : Quotient) (unit : ℤ) :
    ((gridFloor v unit : ℚ) + 1) * 10 ^ unit ≤ v.value + 10 ^ unit := by
  have hvalue : 0 ≤ v.value / 10 ^ unit := by
    unfold Quotient.value
    positivity
  have hle : (gridFloor v unit : ℚ) * 10 ^ unit ≤ v.value := by
    rw [gridFloor_eq, ← le_div_iff₀ (by positivity)]
    exact Nat.floor_le hvalue
  linarith

variable {v : Quotient} {i : Interval} {lead : ℤ} {n : ℕ} {d : Digits}

theorem contains_of_onGrid (h : onGrid v i lead n = some d) :
    i.contains (.ofDecimal d.digits d.exponent) = true := by
  unfold onGrid at h
  dsimp only at h
  rw [gridFloor_def] at h
  -- Whichever neighbour is taken, it has been tested.
  split at h
  · rename_i hbelow habove
    have hbelow := (Bool.and_eq_true_iff.1 hbelow).1
    split at h
    · cases h
      exact hbelow
    · split at h
      · cases h
        exact habove
      · split at h
        · cases h
          exact hbelow
        · cases h
          exact habove
  · rename_i hbelow _
    cases h
    exact (Bool.and_eq_true_iff.1 hbelow).1
  · rename_i habove
    cases h
    exact habove
  · cases h

/-- A grid offers a decimal if the neighbour above the value lies in the interval. -/
theorem exists_onGrid (h : i.contains (.ofDecimal (gridFloor v (lead - n + 1) + 1) (lead - n + 1)) = true) :
    ∃ d, onGrid v i lead n = some d := by
  unfold onGrid
  dsimp only
  rw [gridFloor_def, h]
  split
  · split
    · exact ⟨_, rfl⟩
    · split
      · exact ⟨_, rfl⟩
      · split <;> exact ⟨_, rfl⟩
  · exact ⟨_, rfl⟩
  · exact ⟨_, rfl⟩
  · rename_i hfalse
    cases hfalse

theorem firstGrid_contains : ∀ (fuel n : ℕ), (∃ d, onGrid v i lead (n + fuel) = some d) →
    i.contains (.ofDecimal (firstGrid v i lead n (fuel + 1)).digits
      (firstGrid v i lead n (fuel + 1)).exponent) = true := by
  intro fuel
  induction fuel with
  | zero =>
    rintro n ⟨d, hd⟩
    unfold firstGrid
    rw [Nat.add_zero] at hd
    rw [hd]
    exact contains_of_onGrid hd
  | succ fuel ih =>
    intro n hlast
    unfold firstGrid
    cases hn : onGrid v i lead n with
    | some d => exact contains_of_onGrid hn
    | none => exact ih (n + 1) (by rwa [Nat.add_right_comm, Nat.add_assoc])

/-! ## The decimals that read back -/

/-- The decimals that read back as `m · 2 ^ q`. -/
def around (m : ℕ) (q : ℤ) (wide : Bool) : Interval :=
  ⟨.ofBinary (4 * m - if wide then 1 else 2) (q - 2), .ofBinary (4 * m + 2) (q - 2), m % 2 == 0⟩

variable {m : ℕ} {q : ℤ}

theorem around_contains_iff {wide : Bool} {e : ℤ} :
    (around m q wide).contains (.ofDecimal n e) = true ↔ (around m q wide).Holds (n * 10 ^ e) := by
  rw [Interval.contains_iff (Quotient.den_ofBinary _ _) (Quotient.den_ofBinary _ _) (Quotient.den_ofDecimal _ _),
    Quotient.value_ofDecimal]

/-- The least positive value of the format is above `10 ^ -400`. -/
theorem ofBinary_reach (hm : 0 < m) (hq : -1074 ≤ q) :
    (Quotient.ofBinary m q).den ≤ (Quotient.ofBinary m q).num * 10 ^ 400 := by
  unfold Quotient.ofBinary
  split
  · have : 0 < m * Nat.pow 2 q.toNat := Nat.mul_pos hm (Nat.pow_pos two_pos)
    exact Nat.mul_pos this (by positivity)
  · have hbase : ∀ k, 2 ^ (3 * k) ≤ 10 ^ k := by
      intro k
      rw [pow_mul]
      exact Nat.pow_le_pow_left (by decide) k
    calc Nat.pow 2 (-q).toNat ≤ 2 ^ (3 * 400) := Nat.pow_le_pow_right two_pos (by omega)
      _ ≤ 10 ^ 400 := hbase 400
      _ ≤ m * 10 ^ 400 := Nat.le_mul_of_pos_left _ hm

/-- Just above the value, within less than half a unit, everything reads back. -/
theorem around_holds (wide : Bool) {x : ℚ} (hx : m * 2 ^ q < x) (hx' : x < m * 2 ^ q + 2 ^ q / 2) :
    (around m q wide).Holds x := by
  have hpow : (2 : ℚ) ^ (q - 2) = 2 ^ q / 4 := by
    rw [zpow_sub₀ two_ne_zero]
    norm_num
  have hunit : (0 : ℚ) < 2 ^ q := by positivity
  have hlow : (Quotient.ofBinary (4 * m - if wide then 1 else 2) (q - 2)).value < x := by
    have hle : ((4 * m - if wide then 1 else 2 : ℕ) : ℚ) ≤ 4 * m := by exact_mod_cast Nat.sub_le _ _
    rw [Quotient.value_ofBinary, hpow]
    nlinarith
  have hhigh : x < (Quotient.ofBinary (4 * m + 2) (q - 2)).value := by
    rw [Quotient.value_ofBinary, hpow]
    push_cast
    linarith
  unfold Interval.Holds
  split
  · exact ⟨hlow.le, hhigh.le⟩
  · exact ⟨hlow, hhigh⟩

/-- **The shortest decimal reads back as its value.** -/
theorem shortest_holds (hm : 0 < m) (hlt : m < 2 ^ 53) (hq : -1074 ≤ q) (wide : Bool) :
    (around m q wide).Holds (shortest m q wide).value := by
  refine around_contains_iff.1 (firstGrid_contains 17 1 (exists_onGrid (around_contains_iff.2 ?_)))
  have hvalue := Quotient.value_ofBinary m q
  have hlead := pow_leadExponent_le (Quotient.den_ofBinary m q) (ofBinary_reach hm hq)
  generalize leadExponent (.ofBinary m q) = lead at hlead ⊢
  have hbelow := lt_gridFloor_succ (Quotient.ofBinary m q) (lead - (1 + 17 : ℕ) + 1)
  have habove := gridFloor_succ_le (Quotient.ofBinary m q) (lead - (1 + 17 : ℕ) + 1)
  -- The unit of the last grid is the value's first digit, seventeen places on.
  have hunit : (10 : ℚ) ^ (lead - (1 + 17 : ℕ) + 1) < 2 ^ q / 2 := by
    have hsplit : (10 : ℚ) ^ (lead - (1 + 17 : ℕ) + 1) = 10 ^ lead / 10 ^ 17 := by
      rw [show lead - (1 + 17 : ℕ) + 1 = lead - (17 : ℕ) by omega, zpow_sub₀ (by norm_num), zpow_natCast]
    have hmant : (m : ℚ) < 2 ^ 53 := by exact_mod_cast hlt
    have hpos : (0 : ℚ) < 2 ^ q := by positivity
    rw [hsplit, div_lt_iff₀ (by positivity)]
    calc (10 : ℚ) ^ lead ≤ m * 2 ^ q := hlead.trans_eq hvalue
      _ < 2 ^ 53 * 2 ^ q := by gcongr
      _ ≤ 2 ^ q / 2 * 10 ^ 17 := by nlinarith
  rw [hvalue] at hbelow habove
  push_cast
  exact around_holds wide hbelow (habove.trans_lt (by gcongr))

end ClientGen.Decimal
