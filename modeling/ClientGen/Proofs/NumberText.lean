import ClientGen.Json.Printer
import ClientGen.Proofs.ShortestDecimal

/-!
# Numbers as text

The text of a fraction tells which fraction it is. It is a numeral with a point or an exponent, and its value,
which can be read off the text, lies among the rationals that read back as the fraction. Those of different
fractions have nothing in common: each ends where the next one begins, and an end belongs to the one with
the even mantissa.

* `Decimal.exists_numeral`: what a layout writes is a numeral with the value of the digits.
* `Binary64.holds_unique`: a rational reads back as one magnitude only.
* `Json.floatText_injective`, `Json.toString_ne_floatText`: the texts of numbers differ.
-/

namespace ClientGen

namespace Decimal

/-- A numeral: digits, and after them maybe a point with more digits and an exponent of ten. Without either it does
not begin with a zero, unless it is one. -/
structure Numeral where
  whole : List Char
  fraction : Option (List Char)
  exponent : Option ℤ
  whole_ne_nil : whole ≠ []
  whole_digits : ∀ c ∈ whole, c.isDigit = true
  fraction_digits : ∀ c ∈ fraction.getD [], c.isDigit = true
  head_ne_zero : fraction = none → exponent = none → whole.length = 1 ∨ whole.head? ≠ some '0'

namespace Numeral

/-- The point and the digits after it. -/
def pointChars (n : Numeral) : List Char := n.fraction.elim [] fun ds => '.' :: ds

/-- The exponent with its mark and its sign. -/
def exponentChars (n : Numeral) : List Char :=
  n.exponent.elim [] fun e => 'e' :: (if 0 ≤ e then '+' else '-') :: Nat.toDigits 10 e.natAbs

/-- The numeral as it is written. -/
def chars (n : Numeral) : List Char := n.whole ++ n.pointChars ++ n.exponentChars

/-- The rational that the numeral stands for. -/
def value (n : Numeral) : ℚ :=
  Nat.ofDigitChars 10 (n.whole ++ n.fraction.getD []) 0 * 10 ^ (-((n.fraction.getD []).length : ℤ)) *
    10 ^ n.exponent.getD 0

/-- The numeral with the sign of a number. -/
def signed (n : Numeral) (negative : Bool) : List Char := (if negative then ['-'] else []) ++ n.chars

/-- Has the numeral a point or an exponent? -/
def isMarked (n : Numeral) : Bool := n.fraction.isSome || n.exponent.isSome

/-! ### Reading a numeral -/

/-- The value of digits that may have a point among them. -/
def readPoint (cs : List Char) : ℚ :=
  let fraction := (cs.dropWhile (· != '.')).tail
  Nat.ofDigitChars 10 (cs.takeWhile (· != '.') ++ fraction) 0 * 10 ^ (-(fraction.length : ℤ))

/-- The value of an exponent. -/
def readExponent : List Char → ℤ
  | '-' :: ds => -(Nat.ofDigitChars 10 ds 0 : ℤ)
  | '+' :: ds => Nat.ofDigitChars 10 ds 0
  | _ => 0

/-- The value of a numeral, from its characters. -/
def read (cs : List Char) : ℚ :=
  readPoint (cs.takeWhile (· != 'e')) * 10 ^ readExponent (cs.dropWhile (· != 'e')).tail

theorem cut_append {p : Char → Bool} {front back : List Char} (hfront : ∀ c ∈ front, p c = true)
    (hback : ∀ c ∈ back.head?, p c = false) :
    (front ++ back).takeWhile p = front ∧ (front ++ back).dropWhile p = back := by
  rw [List.takeWhile_append_of_pos hfront, List.dropWhile_append_of_pos hfront]
  cases back with
  | nil => simp
  | cons c back => simp [hback c rfl]

theorem ne_of_isDigit {c mark : Char} (hc : c.isDigit = true) (hmark : mark.isDigit = false) : c ≠ mark := by
  rintro rfl
  exact absurd hc (by rw [hmark]; decide)

theorem readExponent_chars (n : Numeral) : readExponent n.exponentChars.tail = n.exponent.getD 0 := by
  unfold exponentChars
  cases n.exponent with
  | none => rfl
  | some e =>
    dsimp only [Option.elim, List.tail, Option.getD]
    by_cases he : 0 ≤ e
    · rw [if_pos he, readExponent, Nat.ofDigitChars_ten_toDigits]
      omega
    · rw [if_neg he, readExponent, Nat.ofDigitChars_ten_toDigits]
      omega

theorem mem_pointChars {n : Numeral} {c : Char} (h : c ∈ n.pointChars) : c = '.' ∨ c.isDigit = true := by
  have hdigits := n.fraction_digits
  unfold pointChars at h
  cases hn : n.fraction with
  | none =>
    rw [hn] at h
    exact absurd h List.not_mem_nil
  | some ds =>
    rw [hn] at h hdigits
    exact (List.mem_cons.1 h).imp_right (hdigits c)

theorem mem_exponentChars {n : Numeral} {c : Char} (h : c ∈ n.exponentChars) :
    c = 'e' ∨ c = '+' ∨ c = '-' ∨ c.isDigit = true := by
  unfold exponentChars at h
  cases hn : n.exponent with
  | none =>
    rw [hn] at h
    exact absurd h List.not_mem_nil
  | some e =>
    rw [hn] at h
    rcases List.mem_cons.1 h with rfl | h
    · exact .inl rfl
    · rcases List.mem_cons.1 h with rfl | h
      · split <;> simp
      · exact .inr (.inr (.inr (Nat.isDigit_of_mem_toDigits (by decide) (by decide) h)))

theorem chars_cut (n : Numeral) : n.chars.takeWhile (· != 'e') = n.whole ++ n.pointChars ∧
    n.chars.dropWhile (· != 'e') = n.exponentChars := by
  refine cut_append ?_ ?_
  · intro c hc
    rw [bne_iff_ne]
    rcases List.mem_append.1 hc with hc | hc
    · exact ne_of_isDigit (n.whole_digits c hc) (by decide)
    · rcases mem_pointChars hc with rfl | hc
      · decide
      · exact ne_of_isDigit hc (by decide)
  · unfold exponentChars
    cases n.exponent <;> simp

theorem point_cut (n : Numeral) : (n.whole ++ n.pointChars).takeWhile (· != '.') = n.whole ∧
    (n.whole ++ n.pointChars).dropWhile (· != '.') = n.pointChars := by
  refine cut_append (fun c hc => bne_iff_ne.2 (ne_of_isDigit (n.whole_digits c hc) (by decide))) ?_
  unfold pointChars
  cases n.fraction <;> simp

theorem tail_pointChars (n : Numeral) : n.pointChars.tail = n.fraction.getD [] := by
  unfold pointChars
  cases n.fraction <;> rfl

/-- **The characters of a numeral tell its value.** -/
theorem read_chars (n : Numeral) : read n.chars = n.value := by
  unfold read value
  rw [n.chars_cut.1, n.chars_cut.2, readExponent_chars]
  unfold readPoint
  rw [n.point_cut.1, n.point_cut.2, tail_pointChars]

theorem exists_mark {n : Numeral} (h : n.isMarked = true) : ∃ c ∈ n.chars, c.isDigit = false := by
  unfold chars pointChars exponentChars
  rcases Bool.or_eq_true_iff.1 h with h | h
  · obtain ⟨ds, hds⟩ := Option.isSome_iff_exists.1 h
    exact ⟨'.', by simp [hds], by decide⟩
  · obtain ⟨e, he⟩ := Option.isSome_iff_exists.1 h
    exact ⟨'e', by simp [he], by decide⟩

theorem chars_of_unmarked {n : Numeral} (h : n.isMarked = false) : n.chars = n.whole := by
  obtain ⟨hfraction, hexponent⟩ := Bool.or_eq_false_iff.1 h
  unfold chars pointChars exponentChars
  rw [Option.isSome_eq_false_iff, Option.isNone_iff_eq_none] at hfraction hexponent
  rw [hfraction, hexponent]
  simp

theorem isMarked_eq_of_chars {n n' : Numeral} (h : n.chars = n'.chars) : n.isMarked = n'.isMarked := by
  have hmarked : ∀ {m m' : Numeral}, m.chars = m'.chars → m.isMarked = true → m'.isMarked = true := by
    intro m m' h hm
    by_contra hm'
    obtain ⟨c, hc, hdigit⟩ := exists_mark hm
    rw [h, chars_of_unmarked (Bool.not_eq_true _ ▸ hm')] at hc
    exact absurd (m'.whole_digits c hc) (by rw [hdigit]; decide)
  exact Bool.eq_iff_iff.2 ⟨hmarked h, hmarked h.symm⟩

theorem exists_head (n : Numeral) : ∃ c cs, n.chars = c :: cs ∧ c.isDigit = true := by
  obtain ⟨c, rest, hwhole⟩ := List.exists_cons_of_ne_nil n.whole_ne_nil
  refine ⟨c, rest ++ n.pointChars ++ n.exponentChars, ?_, n.whole_digits c (by simp [hwhole])⟩
  rw [chars, hwhole]
  rfl

theorem eq_of_signed {n n' : Numeral} {s s' : Bool} (h : n.signed s = n'.signed s') : s = s' ∧ n.chars = n'.chars := by
  have hsign : ∀ (m : Numeral) (cs : List Char), m.chars ≠ '-' :: cs := by
    intro m cs hm
    obtain ⟨c, rest, hchars, hc⟩ := m.exists_head
    rw [hchars] at hm
    exact ne_of_isDigit hc (by decide) (List.cons.inj hm).1
  cases s <;> cases s'
  · exact ⟨rfl, h⟩
  · exact absurd h (hsign n n'.chars)
  · exact absurd h.symm (hsign n' n.chars)
  · exact ⟨rfl, (List.cons.inj h).2⟩

/-- A numeral with a point in place. -/
def inPlace (whole fraction : List Char) (hne : whole ≠ []) (hwhole : ∀ c ∈ whole, c.isDigit = true)
    (hfraction : ∀ c ∈ fraction, c.isDigit = true) : Numeral :=
  ⟨whole, some fraction, none, hne, hwhole, hfraction, fun h => absurd h (Option.some_ne_none _)⟩

section
variable {whole fraction : List Char} (hne : whole ≠ []) (hwhole : ∀ c ∈ whole, c.isDigit = true)
  (hfraction : ∀ c ∈ fraction, c.isDigit = true)

theorem inPlace_chars : (inPlace whole fraction hne hwhole hfraction).chars = whole ++ '.' :: fraction := by
  simp [chars, pointChars, exponentChars, inPlace]

theorem inPlace_value : (inPlace whole fraction hne hwhole hfraction).value =
    Nat.ofDigitChars 10 (whole ++ fraction) 0 * 10 ^ (-(fraction.length : ℤ)) := by
  simp [value, inPlace]

end

end Numeral

/-! ## Layouts write numerals -/

theorem stripZeros_value : ∀ (fuel digits : ℕ) (exponent : ℤ),
    ((stripZeros digits exponent fuel).1 : ℚ) * 10 ^ (stripZeros digits exponent fuel).2 =
      digits * 10 ^ exponent := by
  intro fuel
  induction fuel with
  | zero => exact fun digits exponent => rfl
  | succ fuel ih =>
    intro digits exponent
    unfold stripZeros
    split
    · rename_i h
      have hmod : digits % 10 = 0 := by simpa using (Bool.and_eq_true_iff.1 h).2
      have hdigits : (digits : ℚ) = (digits / 10 : ℕ) * 10 := by
        exact_mod_cast (Nat.div_mul_cancel (Nat.dvd_of_mod_eq_zero hmod)).symm
      rw [ih, hdigits, zpow_add₀ (by norm_num)]
      ring
    · rfl

theorem isDigit_zeros (k : ℕ) : ∀ c ∈ List.replicate k '0', c.isDigit = true := by
  intro c hc
  rw [List.eq_of_mem_replicate hc]
  decide

section
variable {cs : List Char} (hdigits : ∀ c ∈ cs, c.isDigit = true) (unit : ℤ)
include hdigits

theorem exists_whole (hne : cs ≠ []) (hunit : 0 ≤ unit) : ∃ n : Numeral,
    n.chars = cs ++ List.replicate unit.toNat '0' ++ ['.', '0'] ∧ n.value = Nat.ofDigitChars 10 cs 0 * 10 ^ unit ∧
      n.isMarked = true := by
  obtain ⟨k, rfl⟩ := Int.eq_ofNat_of_zero_le hunit
  have hwhole : ∀ c ∈ cs ++ List.replicate k '0', c.isDigit = true := fun c hc =>
    (List.mem_append.1 hc).elim (hdigits c) (isDigit_zeros k c)
  refine ⟨.inPlace _ ['0'] (by simp [hne]) hwhole (isDigit_zeros 1), Numeral.inPlace_chars _ _ _, ?_, rfl⟩
  rw [Numeral.inPlace_value]
  simp [Nat.ofDigitChars_append, Nat.ofDigitChars_replicate_zero, Nat.ofDigitChars_cons]
  ring

theorem exists_split {place : ℕ} (hplace : (place : ℤ) = unit + cs.length) (hpos : 0 < place) (hunit : unit < 0)
    (hne : cs ≠ []) :
    ∃ n : Numeral, n.chars = cs.take place ++ '.' :: cs.drop place ∧
      n.value = Nat.ofDigitChars 10 cs 0 * 10 ^ unit ∧ n.isMarked = true := by
  have htake : cs.take place ≠ [] := by
    rw [ne_eq, List.take_eq_nil_iff, not_or]
    exact ⟨hpos.ne', hne⟩
  have hdrop : -((cs.drop place).length : ℤ) = unit := by
    rw [List.length_drop]
    omega
  refine ⟨.inPlace _ _ htake (fun c hc => hdigits c (List.mem_of_mem_take hc))
    (fun c hc => hdigits c (List.mem_of_mem_drop hc)), Numeral.inPlace_chars _ _ _, ?_, rfl⟩
  rw [Numeral.inPlace_value, hdrop, List.take_append_drop]

theorem exists_below {zeros : ℕ} (hzeros : (zeros : ℤ) = -(unit + cs.length)) : ∃ n : Numeral,
    n.chars = '0' :: '.' :: (List.replicate zeros '0' ++ cs) ∧ n.value = Nat.ofDigitChars 10 cs 0 * 10 ^ unit ∧
      n.isMarked = true := by
  have hfraction : ∀ c ∈ List.replicate zeros '0' ++ cs, c.isDigit = true := fun c hc =>
    (List.mem_append.1 hc).elim (isDigit_zeros zeros c) (hdigits c)
  have hlength : -((List.replicate zeros '0' ++ cs).length : ℤ) = unit := by
    rw [List.length_append, List.length_replicate]
    omega
  refine ⟨.inPlace ['0'] _ (by simp) (isDigit_zeros 1) hfraction, Numeral.inPlace_chars _ _ _, ?_, rfl⟩
  rw [Numeral.inPlace_value, hlength]
  simp [Nat.ofDigitChars_append, Nat.ofDigitChars_replicate_zero, Nat.ofDigitChars_cons]

end

theorem exists_scientific {c : Char} {rest : List Char} (hdigits : ∀ d ∈ c :: rest, d.isDigit = true) (unit : ℤ)
    {lead : ℤ} (hlead : lead = unit + rest.length) : ∃ n : Numeral,
    n.chars = c :: ((if rest = [] then [] else '.' :: rest) ++
      'e' :: (if 0 ≤ lead then '+' else '-') :: Nat.toDigits 10 lead.natAbs) ∧
    n.value = Nat.ofDigitChars 10 (c :: rest) 0 * 10 ^ unit ∧ n.isMarked = true := by
  have hc : ∀ d ∈ [c], d.isDigit = true := by simpa using hdigits c List.mem_cons_self
  by_cases hrest : rest = []
  · subst hrest
    obtain rfl : lead = unit := by simpa using hlead
    exact ⟨⟨[c], none, some lead, by simp, hc, by simp, by simp⟩, rfl, by simp [Numeral.value], rfl⟩
  · have hfraction : ∀ d ∈ rest, d.isDigit = true := fun d hd => hdigits d (List.mem_cons_of_mem _ hd)
    refine ⟨⟨[c], some rest, some lead, by simp, hc, hfraction, by simp⟩, ?_, ?_, rfl⟩
    · rw [if_neg hrest]
      rfl
    · have hexp : -(rest.length : ℤ) + lead = unit := by omega
      simp only [Numeral.value, Option.getD_some, List.singleton_append]
      rw [mul_assoc, ← zpow_add₀ (by norm_num), hexp]

/-- **What a layout writes is a numeral with the value of the digits.** -/
theorem exists_numeral (layout : Layout) (d : Digits) :
    ∃ n : Numeral, n.chars = (layout.write d).toList ∧ n.value = d.value ∧ n.isMarked = true := by
  have hstrip := stripZeros_value 400 d.digits d.exponent
  unfold Layout.write Digits.value
  rw [← hstrip]
  clear hstrip
  -- The zeros that are dropped do not matter for the value, and of the number only its digits are needed from here on.
  generalize stripZeros d.digits d.exponent 400 = stripped
  obtain ⟨digits, unit⟩ := stripped
  dsimp only
  have hdigits : ∀ c ∈ Nat.toDigits 10 digits, c.isDigit = true := fun c hc =>
    Nat.isDigit_of_mem_toDigits (by decide) (by decide) hc
  have hne : Nat.toDigits 10 digits ≠ [] := Nat.toDigits_ne_nil
  have hvalue : Nat.ofDigitChars 10 (Nat.toDigits 10 digits) 0 = digits := Nat.ofDigitChars_ten_toDigits
  generalize Nat.toDigits 10 digits = cs at hdigits hne hvalue ⊢
  subst hvalue
  split
  · split
    · rename_i hunit
      simpa using exists_whole hdigits unit hne hunit
    · split
      · rename_i hunit hlead
        have hplace : ((unit + (cs.length : ℤ) - 1 + 1).toNat : ℤ) = unit + cs.length := by omega
        simpa using exists_split hdigits unit hplace (by omega) (not_le.1 hunit) hne
      · rename_i hunit hlead
        have hzeros : ((-(unit + (cs.length : ℤ) - 1) - 1).toNat : ℤ) = -(unit + cs.length) := by omega
        simpa using exists_below hdigits unit hzeros
  · obtain ⟨c, rest, rfl⟩ := List.exists_cons_of_ne_nil hne
    have hlead : unit + ((c :: rest).length : ℤ) - 1 = unit + rest.length := by
      rw [List.length_cons]
      omega
    obtain ⟨n, hchars, hn⟩ := exists_scientific hdigits unit hlead
    refine ⟨n, ?_, hn⟩
    rw [hchars]
    generalize unit + ((c :: rest).length : ℤ) - 1 = lead
    -- The mark is the letter and the sign in one text.
    have hmark : (if 0 ≤ lead then "e+" else "e-").toList = ['e', if 0 ≤ lead then '+' else '-'] := by
      split <;> rfl
    rw [String.toList_append, String.toList_append, hmark]
    cases rest with
    | nil => simp
    | cons c' rest => simp

end Decimal

/-! ## The values of the format

A magnitude is the pattern of a fraction without its sign. -/

namespace Binary64

open Decimal

/-- The whole multiple that the magnitude is of its unit. -/
def mantissa (b : ℕ) : ℕ := if b / 2 ^ 52 = 0 then b % 2 ^ 52 else 2 ^ 52 + b % 2 ^ 52

/-- How many times the unit is doubled. -/
def doublings (b : ℕ) : ℕ := b / 2 ^ 52 - 1

/-- The magnitude is the least one with its unit, and the unit below is smaller. -/
def isWide (b : ℕ) : Bool := b % 2 ^ 52 = 0 ∧ 1 < b / 2 ^ 52

/-- The rationals that read back as the magnitude. -/
def interval (b : ℕ) : Interval := around (mantissa b) (doublings b - 1074) (isWide b)

/-- The lower end, in parts of the least unit. -/
def lowEnd (b : ℕ) : ℕ := (4 * mantissa b - if isWide b then 1 else 2) * 2 ^ doublings b

/-- The upper end, in parts of the least unit. -/
def highEnd (b : ℕ) : ℕ := (4 * mantissa b + 2) * 2 ^ doublings b

variable {b b' : ℕ} {x : ℚ}

theorem mantissa_mod_two (b : ℕ) : mantissa b % 2 = b % 2 := by
  unfold mantissa
  split <;> omega

theorem mantissa_lt (b : ℕ) : mantissa b < 2 ^ 53 := by
  unfold mantissa
  split <;> omega

theorem lowEnd_lt (b : ℕ) : lowEnd b < highEnd b := by
  refine Nat.mul_lt_mul_of_pos_right ?_ (Nat.pow_pos two_pos)
  split <;> omega

theorem highEnd_of_room (h : b % 2 ^ 52 + 1 < 2 ^ 52) : highEnd b = lowEnd (b + 1) := by
  have hdiv : (b + 1) / 2 ^ 52 = b / 2 ^ 52 := by omega
  have hmod : (b + 1) % 2 ^ 52 = b % 2 ^ 52 + 1 := by omega
  have hmantissa : mantissa (b + 1) = mantissa b + 1 := by
    unfold mantissa
    rw [hdiv, hmod]
    split <;> omega
  have hwide : isWide (b + 1) = false := by
    unfold isWide
    rw [hmod]
    simp
  unfold highEnd lowEnd doublings
  rw [hdiv, hmantissa, hwide, if_neg (by decide)]
  congr 1

/-- The next magnitude has the next unit, which is double unless it is the first. -/
theorem highEnd_of_carry (h : b % 2 ^ 52 + 1 = 2 ^ 52) : highEnd b = lowEnd (b + 1) := by
  have hdiv : (b + 1) / 2 ^ 52 = b / 2 ^ 52 + 1 := by omega
  have hmod : (b + 1) % 2 ^ 52 = 0 := by omega
  have hfraction : b % 2 ^ 52 = 2 ^ 52 - 1 := by omega
  unfold highEnd lowEnd mantissa doublings isWide
  rw [hdiv, hmod, hfraction]
  cases b / 2 ^ 52 with
  | zero => norm_num
  | succ e =>
    -- The lower end is a quarter of the new unit below, which is half of the old one.
    simp [pow_succ]
    omega

theorem highEnd_eq (b : ℕ) : highEnd b = lowEnd (b + 1) := by
  rcases lt_or_eq_of_le (show b % 2 ^ 52 + 1 ≤ 2 ^ 52 by omega) with h | h
  · exact highEnd_of_room h
  · exact highEnd_of_carry h

theorem lowEnd_strictMono : StrictMono lowEnd :=
  strictMono_nat_of_lt_succ fun b => (lowEnd_lt b).trans_eq (highEnd_eq b)

theorem value_parts (n k : ℕ) :
    (Quotient.ofBinary n ((k : ℤ) - 1074 - 2)).value = (n * 2 ^ k : ℕ) * 2 ^ (-1076 : ℤ) := by
  rw [Quotient.value_ofBinary, show (k : ℤ) - 1074 - 2 = k + -1076 by ring, zpow_add₀ two_ne_zero, zpow_natCast,
    Nat.cast_mul, Nat.cast_pow, Nat.cast_ofNat, mul_assoc]

theorem value_low (b : ℕ) : (interval b).low.value = lowEnd b * 2 ^ (-1076 : ℤ) := value_parts _ _

theorem value_high (b : ℕ) : (interval b).high.value = highEnd b * 2 ^ (-1076 : ℤ) := value_parts _ _

theorem holds_le (h : (interval b).Holds x) : (interval b).low.value ≤ x ∧ x ≤ (interval b).high.value := by
  unfold Interval.Holds at h
  split at h
  · exact h
  · exact ⟨h.1.le, h.2.le⟩

/-- Only an even magnitude owns an end of its interval. -/
theorem even_of_holds_end (h : (interval b).Holds x)
    (hend : x = (interval b).low.value ∨ x = (interval b).high.value) : b % 2 = 0 := by
  unfold Interval.Holds at h
  split at h
  · rename_i hclosed
    rw [← mantissa_mod_two]
    exact eq_of_beq hclosed
  · rcases hend with rfl | rfl
    · exact absurd h.1 (lt_irrefl _)
    · exact absurd h.2 (lt_irrefl _)

theorem not_holds_of_lt (hlt : b < b') (h : (interval b).Holds x) : ¬(interval b').Holds x := by
  intro h'
  have hhigh := (holds_le h).2
  have hlow := (holds_le h').1
  have hpos : (0 : ℚ) < 2 ^ (-1076 : ℤ) := by positivity
  -- The upper interval begins at or after the end of the lower one, so both meet at an end.
  have hends : highEnd b ≤ lowEnd b' := (highEnd_eq b).trans_le (lowEnd_strictMono.monotone hlt)
  have hle : (interval b).high.value ≤ (interval b').low.value := by
    rw [value_high, value_low]
    gcongr
  have hmeet : (interval b).high.value = (interval b').low.value := le_antisymm hle (hlow.trans hhigh)
  have hnext : b' = b + 1 := by
    rw [value_high, value_low, mul_left_inj' hpos.ne', highEnd_eq] at hmeet
    exact (lowEnd_strictMono.injective (by exact_mod_cast hmeet)).symm
  have heven := even_of_holds_end h (.inr (le_antisymm hhigh (hle.trans hlow)))
  have heven' := even_of_holds_end h' (.inl (le_antisymm (hhigh.trans hle) hlow))
  omega

/-- **A rational reads back as one magnitude only.** -/
theorem holds_unique (h : (interval b).Holds x) (h' : (interval b').Holds x) : b = b' := by
  rcases lt_trichotomy b b' with hlt | heq | hlt
  · exact absurd h' (not_holds_of_lt hlt h)
  · exact heq
  · exact absurd h (not_holds_of_lt hlt h')

/-- The shortest decimal of a magnitude. -/
def digits (b : ℕ) : Digits := shortest (mantissa b) (doublings b - 1074) (isWide b)

theorem digits_eq (b : ℕ) : digits b =
    if b / 2 ^ 52 == 0 then shortest (b % 2 ^ 52) (-1074) false
    else shortest (2 ^ 52 + b % 2 ^ 52) ((b / 2 ^ 52 : ℕ) - 1075) (b % 2 ^ 52 == 0 && b / 2 ^ 52 != 1) := by
  unfold digits mantissa doublings isWide
  generalize b % 2 ^ 52 = fraction
  cases b / 2 ^ 52 with
  | zero => simp
  | succ e =>
    have hunit : (e : ℤ) - 1074 = (e + 1 : ℕ) - 1075 := by omega
    have hwide : decide (fraction = 0 ∧ 1 < e + 1) = (fraction == 0 && e + 1 != 1) := by
      rw [Bool.eq_iff_iff, decide_eq_true_eq, Bool.and_eq_true, beq_iff_eq, bne_iff_ne]
      omega
    rw [if_neg (by omega), if_neg (by simp), Nat.add_sub_cancel, hunit, hwide]

theorem digits_holds (hb : b ≠ 0) : (interval b).Holds (digits b).value := by
  refine shortest_holds ?_ (mantissa_lt b) (by omega) (isWide b)
  unfold mantissa
  split <;> omega

theorem zero_holds : (interval 0).Holds 0 := by
  have hlow : (interval 0).low.value ≤ 0 := by
    rw [value_low]
    simp [lowEnd, mantissa]
  have hhigh : 0 ≤ (interval 0).high.value := by
    rw [value_high]
    positivity
  exact ⟨hlow, hhigh⟩

end Binary64

/-! ## The texts of numbers -/

namespace Json

open Decimal

def isNegative (x : Float) : Bool := x.toBits.toNat / 2 ^ 63 == 1

def magnitude (x : Float) : ℕ := x.toBits.toNat % 2 ^ 63

theorem eq_of_magnitude {x y : Float} (hsign : isNegative x = isNegative y) (h : magnitude x = magnitude y) :
    x = y := by
  have hx := x.toBits.toNat_lt
  have hy := y.toBits.toNat_lt
  unfold isNegative at hsign
  unfold magnitude at h
  rw [Bool.eq_iff_iff, beq_iff_eq, beq_iff_eq] at hsign
  refine Float.toBits_inj.1 (UInt64.toNat_inj.1 ?_)
  omega

/-- The text of a fraction: its sign, and the shortest decimal of its magnitude. -/
theorem floatText_eq (x : Float) : floatText x = (if isNegative x then "-" else "") ++
    (if magnitude x = 0 then "0.0" else fractionLayout.write (Binary64.digits (magnitude x))) := by
  have hdiv : magnitude x / 2 ^ 52 = x.toBits.toNat / 2 ^ 52 % 2 ^ 11 :=
    Nat.mod_mul_right_div_self x.toBits.toNat (2 ^ 52) (2 ^ 11)
  have hmod : magnitude x % 2 ^ 52 = x.toBits.toNat % 2 ^ 52 := Nat.mod_mod_of_dvd _ (by decide)
  unfold floatText
  dsimp only [Nat.pow_eq]
  rw [← hdiv, ← hmod]
  generalize magnitude x = b
  by_cases hzero : b = 0
  · subst hzero
    rfl
  · have hparts : ¬(b / 2 ^ 52 == 0 && b % 2 ^ 52 == 0) = true := by
      rw [Bool.and_eq_true, beq_iff_eq, beq_iff_eq]
      omega
    rw [if_neg hparts, if_neg hzero, Binary64.digits_eq]
    rfl

/-- **The text of a fraction is a numeral that reads back as it.** -/
theorem floatText_numeral (x : Float) : ∃ n : Numeral,
    (floatText x).toList = n.signed (isNegative x) ∧
      (Binary64.interval (magnitude x)).Holds n.value ∧ n.isMarked = true := by
  have hsign : (if isNegative x then "-" else "").toList = if isNegative x then ['-'] else [] := by
    split <;> rfl
  unfold Numeral.signed
  rw [floatText_eq, String.toList_append, hsign]
  by_cases hzero : magnitude x = 0
  · have hdigit : ∀ c ∈ ['0'], c.isDigit = true := isDigit_zeros 1
    refine ⟨.inPlace ['0'] ['0'] (by decide) hdigit hdigit, ?_, ?_, rfl⟩
    · rw [if_pos hzero, Numeral.inPlace_chars]
      rfl
    · rw [hzero, Numeral.inPlace_value]
      simpa [Nat.ofDigitChars_cons] using Binary64.zero_holds
  · obtain ⟨n, hchars, hvalue, hmarked⟩ := exists_numeral fractionLayout (Binary64.digits (magnitude x))
    refine ⟨n, ?_, ?_, hmarked⟩
    · rw [if_neg hzero, hchars]
    · rw [hvalue]
      exact Binary64.digits_holds hzero

/-- **Different fractions have different texts.** -/
theorem floatText_injective : Function.Injective floatText := by
  intro x y h
  obtain ⟨n, hx, hn, -⟩ := floatText_numeral x
  obtain ⟨n', hy, hn', -⟩ := floatText_numeral y
  rw [h, hy] at hx
  obtain ⟨hsign, hchars⟩ := Numeral.eq_of_signed hx
  have hvalue : n'.value = n.value := by
    rw [← Numeral.read_chars, ← Numeral.read_chars, hchars]
  rw [hvalue] at hn'
  exact eq_of_magnitude hsign.symm (Binary64.holds_unique hn hn')

theorem head?_toDigits : ∀ {n : ℕ}, n ≠ 0 → (Nat.toDigits 10 n).head? ≠ some '0' := by
  intro n
  induction n using Nat.strong_induction_on with
  | _ n ih =>
    intro hn
    by_cases hlt : n < 10
    · rw [Nat.toDigits_of_lt_base hlt]
      interval_cases n <;> simp_all
    · rw [Nat.toDigits_of_base_le (by decide) (not_lt.1 hlt), List.head?_append_of_ne_nil _ Nat.toDigits_ne_nil]
      exact ih (n / 10) (by omega) (by omega)

/-- The text of a whole number is a numeral without a point and an exponent. -/
theorem toString_int_numeral (i : ℤ) : ∃ n : Numeral,
    (toString i).toList = n.signed (decide (i < 0)) ∧ n.isMarked = false := by
  have hdigits : ∀ c ∈ Nat.toDigits 10 i.natAbs, c.isDigit = true := fun c hc =>
    Nat.isDigit_of_mem_toDigits (by decide) (by decide) hc
  have hhead : (Nat.toDigits 10 i.natAbs).length = 1 ∨ (Nat.toDigits 10 i.natAbs).head? ≠ some '0' := by
    by_cases hzero : i.natAbs = 0
    · rw [hzero]
      exact .inl rfl
    · exact .inr (head?_toDigits hzero)
  refine ⟨⟨_, none, none, Nat.toDigits_ne_nil, hdigits, by simp, fun _ _ => hhead⟩, ?_, rfl⟩
  rw [Numeral.signed, Numeral.chars_of_unmarked rfl, Int.toString_eq_repr]
  cases i with
  | ofNat m | negSucc m => simp [Int.repr]

theorem toString_ne_floatText (i : ℤ) (x : Float) : toString i ≠ floatText x := by
  intro h
  obtain ⟨n, hi, hn⟩ := toString_int_numeral i
  obtain ⟨n', hx, -, hn'⟩ := floatText_numeral x
  rw [h, hx] at hi
  have hmarked := Numeral.isMarked_eq_of_chars (Numeral.eq_of_signed hi).2
  rw [hn, hn'] at hmarked
  cases hmarked

end Json

end ClientGen
