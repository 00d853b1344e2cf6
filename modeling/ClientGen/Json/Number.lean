import ClientGen.Json.Basic

/-!
# Number literals

A number literal as written, and the value it stands for. A literal without fraction and exponent
is an integer if it fits 64 bits; every other literal is a 64-bit fraction.

The fraction is computed from the leading digits that fit 64 bits and one multiplication or
division by a power of ten; further digits only move the point. A value too large for the format
is no number.
-/

namespace ClientGen.Json

/-- A number literal as written. Digits are their values. -/
structure NumberLiteral where
  negative : Bool
  whole : List Nat
  fraction : Option (List Nat) := none
  /-- The exponent's sign and digits. -/
  exponent : Option (Bool × List Nat) := none

/-- The greatest unsigned integer of 64 bits. -/
def maxUnsigned : Nat := Nat.pow 2 64 - 1

/-- Appends digits to a significand as long as it fits; the digits left over are returned. -/
def takeDigits (significand : Nat) : List Nat → Nat × List Nat
  | [] => (significand, [])
  | d :: rest =>
    if significand * 10 + d ≤ maxUnsigned then takeDigits (significand * 10 + d) rest
    else (significand, d :: rest)

/-- `10 ^ n` for `n ≤ 308`. -/
def powerOfTen (n : Nat) : Float := Float.ofScientific 1 false n

/-- `f · 10 ^ exponent`, by division in steps for a small exponent; `none` out of range. -/
def scale (f : Float) (exponent : Int) : Nat → Option Float
  | 0 => some f
  | fuel + 1 =>
    if exponent.natAbs ≤ 308 then
      if 0 ≤ exponent then
        let r := f * powerOfTen exponent.toNat
        if r.isInf then none else some r
      else some (f / powerOfTen exponent.natAbs)
    else if f == 0.0 then some f
    else if 0 ≤ exponent then none
    else scale (f / powerOfTen 308) (exponent + 308) fuel

/-- The number that an exponent's digits write, or `none` if it exceeds 31 bits. -/
def exponentValue (digits : List Nat) : Option Nat :=
  let n := digits.foldl (fun n d => n * 10 + d) 0
  if n < Nat.pow 2 31 then some n else none

/-- A fraction from a significand, the power of ten its digits are at, and a written exponent. -/
def fractionValue (negative : Bool) (significand : Nat) (start : Int)
    (exponent : Option (Bool × List Nat)) : Option Float :=
  let signed (x : Float) := if negative then -x else x
  let value (e : Int) := (scale significand.toUInt64.toFloat e (e.natAbs / 308 + 2)).map signed
  match exponent with
  | none => value start
  | some (down, digits) =>
    match exponentValue digits with
    | some n => value (if down then start - n else start + n)
    | none => if significand != 0 && !down then none else some (signed 0.0)

/-- The value of a literal, or `none` if it is out of range. -/
def NumberLiteral.value (l : NumberLiteral) : Option Json :=
  let (significand, surplus) := takeDigits 0 l.whole
  match l.fraction, l.exponent, surplus with
  | none, none, [] =>
    if !l.negative then some (.int significand)
    else if significand == 0 || Nat.pow 2 63 < significand then
      some (.float (-significand.toUInt64.toFloat))
    else some (.int (-significand))
  | none, e, surplus => (fractionValue l.negative significand surplus.length e).map .float
  | some ds, e, surplus =>
    let (significand', dropped) := takeDigits significand ds
    let used := ds.length - dropped.length
    (fractionValue l.negative significand' ((surplus.length : Int) - used) e).map .float

end ClientGen.Json
