/-!
# Shortest decimals

The decimal with the fewest digits that lies closer to a binary fraction than to any other value of
its format, found in exact arithmetic.

A positive value is `m · 2 ^ q`, given as a quotient of naturals. The decimals that read back as it
fill an interval around it; the ends belong to it when `m` is even. For one digit, two digits and
so on, only the value's two neighbours on the grid of that many digits need to be tried.
-/

namespace ClientGen.Decimal

/-- A positive quotient of naturals. -/
structure Quotient where
  num : Nat
  den : Nat

/-- `n · 2 ^ e`. -/
def Quotient.ofBinary (n : Nat) (e : Int) : Quotient :=
  if 0 ≤ e then ⟨n * Nat.pow 2 e.toNat, 1⟩ else ⟨n, Nat.pow 2 (-e).toNat⟩

/-- `n · 10 ^ e`. -/
def Quotient.ofDecimal (n : Nat) (e : Int) : Quotient :=
  if 0 ≤ e then ⟨n * Nat.pow 10 e.toNat, 1⟩ else ⟨n, Nat.pow 10 (-e).toNat⟩

def Quotient.lt (a b : Quotient) : Bool := a.num * b.den < b.num * a.den

def Quotient.le (a b : Quotient) : Bool := a.num * b.den ≤ b.num * a.den

def Quotient.gap (a b : Quotient) : Quotient :=
  ⟨(a.num * b.den - b.num * a.den) + (b.num * a.den - a.num * b.den), a.den * b.den⟩

/-- How many powers of ten, up to `fuel`, fit below or at `num / den`. -/
def wholeDigits (num den : Nat) : Nat → Nat
  | 0 => 0
  | fuel + 1 => if den ≤ num then wholeDigits num (den * 10) fuel + 1 else 0

/-- How many times ten, up to `fuel`, `num` has to grow to reach `den`. -/
def leadingZeros (num den : Nat) : Nat → Nat
  | 0 => 0
  | fuel + 1 => if num < den then leadingZeros (num * 10) den fuel + 1 else 0

/-- The exponent of ten of the first digit. The values of a 64-bit format have fewer than 400
digits on either side of the point. -/
def leadExponent (v : Quotient) : Int :=
  if v.num < v.den then -(leadingZeros v.num v.den 400 : Int)
  else (wholeDigits v.num v.den 400 : Int) - 1

/-- The decimals that read back as a value. -/
structure Interval where
  low : Quotient
  high : Quotient
  closed : Bool

def Interval.contains (i : Interval) (d : Quotient) : Bool :=
  if i.closed then i.low.le d && d.le i.high else i.low.lt d && d.lt i.high

/-- Digits `digits` with the first one at exponent `exponent`, or with `digits = 10 ^ n` the next
power of ten. -/
structure Digits where
  digits : Nat
  exponent : Int

/-- The nearer of the value's neighbours on the grid of `n` digits that lie in the interval; of two
equally near ones the even one. -/
def onGrid (v : Quotient) (i : Interval) (lead : Int) (n : Nat) : Option Digits :=
  let unit := lead - (n : Int) + 1
  let scaled := if 0 ≤ unit then v.num / (v.den * Nat.pow 10 unit.toNat)
    else v.num * Nat.pow 10 (-unit).toNat / v.den
  let below := Quotient.ofDecimal scaled unit
  let above := Quotient.ofDecimal (scaled + 1) unit
  match i.contains below && 0 < scaled, i.contains above with
  | true, true =>
    let down := v.gap below
    let up := v.gap above
    if down.lt up then some ⟨scaled, unit⟩
    else if up.lt down then some ⟨scaled + 1, unit⟩
    else if scaled % 2 == 0 then some ⟨scaled, unit⟩ else some ⟨scaled + 1, unit⟩
  | true, false => some ⟨scaled, unit⟩
  | false, true => some ⟨scaled + 1, unit⟩
  | false, false => none

/-- The first grid with a decimal in the interval, of those with `n`, `n + 1`, … digits. -/
def firstGrid (v : Quotient) (i : Interval) (lead : Int) (n : Nat) : Nat → Digits
  | 0 => ⟨0, 0⟩
  | fuel + 1 =>
    match onGrid v i lead n with
    | some d => d
    | none => firstGrid v i lead (n + 1) fuel

/-- The shortest decimal for `m · 2 ^ q`; `wide` when the value below is only half as far away as
the one above. Seventeen digits always suffice. -/
def shortest (m : Nat) (q : Int) (wide : Bool) : Digits :=
  let v := Quotient.ofBinary m q
  let low := Quotient.ofBinary (4 * m - if wide then 1 else 2) (q - 2)
  let high := Quotient.ofBinary (4 * m + 2) (q - 2)
  firstGrid v ⟨low, high, m % 2 == 0⟩ (leadExponent v) 1 18

/-- Digits without trailing zeros, and the exponent of the last one kept. -/
def stripZeros (digits : Nat) (exponent : Int) : Nat → Nat × Int
  | 0 => (digits, exponent)
  | fuel + 1 =>
    if digits != 0 && digits % 10 == 0 then stripZeros (digits / 10) (exponent + 1) fuel
    else (digits, exponent)

/-- How a format lays out digits: the exponents of the first digit for which the point is written
in place, from `least` up to but not including `bound`. -/
structure Layout where
  least : Int
  bound : Int

/-- Writes the digits of a positive value. In place, at least one digit stands on either side of
the point; otherwise one digit stands before it and the exponent bears its sign. -/
def Layout.write (layout : Layout) (d : Digits) : String :=
  let (digits, unit) := stripZeros d.digits d.exponent 400
  let cs := Nat.toDigits 10 digits
  let lead := unit + (cs.length : Int) - 1
  if layout.least ≤ lead && lead < layout.bound then
    if 0 ≤ unit then String.ofList (cs ++ List.replicate unit.toNat '0') ++ ".0"
    else if 0 ≤ lead then
      let whole := (lead + 1).toNat
      String.ofList (cs.take whole) ++ "." ++ String.ofList (cs.drop whole)
    else "0." ++ String.ofList (List.replicate (-lead - 1).toNat '0' ++ cs)
  else
    let mantissa := match cs with
      | [c] => String.ofList [c]
      | c :: rest => String.ofList (c :: '.' :: rest)
      | [] => ""
    let mark := if 0 ≤ lead then "e+" else "e-"
    mantissa ++ mark ++ String.ofList (Nat.toDigits 10 lead.natAbs)

end ClientGen.Decimal
