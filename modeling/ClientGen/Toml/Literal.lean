import ClientGen.Toml.Basic

/-!
# TOML numbers and moments

Scanners of numbers, dates and times. Each returns the value and what follows it.

* `integer?`: decimal with a sign, or hexadecimal, octal or binary without one; 64 bits.
* `float?`: with a fraction or an exponent, or one of `inf` and `nan`. A literal whose value is too
  large for a 64-bit fraction is refused if it is positive.
* `moment?`: a date, a time, or both with an offset.
-/

namespace ClientGen.Toml

def isDigitOf (base : Nat) (c : Char) : Bool :=
  match base with
  | 16 => c.isDigit || ('a' ≤ c && c ≤ 'f') || ('A' ≤ c && c ≤ 'F')
  | 8 => '0' ≤ c && c ≤ '7'
  | 2 => c == '0' || c == '1'
  | _ => c.isDigit

def digitValue (c : Char) : Nat :=
  if c.isDigit then c.toNat - '0'.toNat
  else if 'a' ≤ c then c.toNat - 'a'.toNat + 10
  else c.toNat - 'A'.toNat + 10

/-- Further digits; an underscore may stand before each. `none` for an underscore without one. -/
def moreDigits? (base : Nat) : List Char → Option (List Char × List Char)
  | '_' :: c :: rest =>
    if isDigitOf base c then (moreDigits? base rest).map fun (ds, r) => (c :: ds, r) else none
  | ['_'] => none
  | c :: rest =>
    if isDigitOf base c then (moreDigits? base rest).map fun (ds, r) => (c :: ds, r)
    else some ([], c :: rest)
  | [] => some ([], [])

/-- At least one digit, with underscores between digits. -/
def digits? (base : Nat) : List Char → Option (List Char × List Char)
  | c :: rest =>
    if isDigitOf base c then (moreDigits? base rest).map fun (ds, r) => (c :: ds, r) else none
  | [] => none

/-- A whole number without sign; a zero in front stands alone. -/
def whole? : List Char → Option (List Char × List Char)
  | '0' :: rest => some (['0'], rest)
  | cs => digits? 10 cs

def sign : List Char → Bool × List Char
  | '+' :: rest => (false, rest)
  | '-' :: rest => (true, rest)
  | cs => (false, cs)

def digitsValue (base : Nat) (ds : List Char) : Nat :=
  ds.foldl (fun n c => n * base + digitValue c) 0

/-- The value of digits if it fits a signed integer of 64 bits. -/
def fitting? (negative : Bool) (n : Nat) : Option Int :=
  if negative then if n ≤ Nat.pow 2 63 then some (-(n : Int)) else none
  else if n < Nat.pow 2 63 then some n else none

def integer? (cs : List Char) : Option (Toml × List Char) :=
  let based (base : Nat) (rest : List Char) : Option (Toml × List Char) := do
    let (ds, rest) ← digits? base rest
    let n ← fitting? false (digitsValue base ds)
    return (.integer n, rest)
  match cs with
  | '0' :: 'x' :: rest => based 16 rest
  | '0' :: 'o' :: rest => based 8 rest
  | '0' :: 'b' :: rest => based 2 rest
  | cs => do
    let (negative, rest) := sign cs
    let (ds, rest) ← whole? rest
    let n ← fitting? negative (digitsValue 10 ds)
    return (.integer n, rest)

/-- A fraction as written: the digits before and after the point, and the exponent. -/
structure FloatLiteral where
  negative : Bool
  whole : List Char
  fraction : List Char := []
  down : Bool := false
  exponent : List Char := []

/-- The least decimal that rounds to infinity in 64 bits. -/
def overflow : Nat := Nat.pow 2 1024 - Nat.pow 2 970

/-- Is the absolute value so large that it rounds to infinity? Values of more than 310 digits are,
so no larger power of ten is computed. -/
def FloatLiteral.overflows (l : FloatLiteral) : Bool :=
  let significand := digitsValue 10 (l.whole ++ l.fraction)
  let size := (Nat.toDigits 10 significand).length
  let written := digitsValue 10 l.exponent
  let exponent : Int := (if l.down then -(written : Int) else written) - l.fraction.length
  if significand == 0 then false
  else if 310 < size + exponent then true
  else if 0 ≤ exponent then overflow ≤ significand * Nat.pow 10 exponent.toNat
  else if size + exponent < 300 then false
  else overflow * Nat.pow 10 exponent.natAbs ≤ significand

def exponent? : List Char → Option (Bool × List Char × List Char)
  | c :: rest =>
    if c == 'e' || c == 'E' then
      let (down, rest) := sign rest
      (digits? 10 rest).map fun (ds, r) => (down, ds, r)
    else none
  | [] => none

/-- A number with a fraction or an exponent, and what follows it. -/
def floatLiteral? (cs : List Char) : Option (FloatLiteral × List Char) := do
  let (negative, rest) := sign cs
  let (whole, rest) ← whole? rest
  match rest with
  | '.' :: rest => do
    let (fraction, rest) ← digits? 10 rest
    match exponent? rest with
    | some (down, exponent, rest) => return ({ negative, whole, fraction, down, exponent }, rest)
    | none => return ({ negative, whole, fraction }, rest)
  | rest => do
    let (down, exponent, rest) ← exponent? rest
    return ({ negative, whole, down, exponent }, rest)

def special? (cs : List Char) : Option (List Char) :=
  match (sign cs).2 with
  | 'i' :: 'n' :: 'f' :: rest => some rest
  | 'n' :: 'a' :: 'n' :: rest => some rest
  | _ => none

/-- The part of a text that was taken off its front. -/
def taken (cs rest : List Char) : String := String.ofList (cs.take (cs.length - rest.length))

def float? (cs : List Char) : Option (Toml × List Char) :=
  match floatLiteral? cs with
  | some (l, rest) => if !l.negative && l.overflows then none else some (.float (taken cs rest), rest)
  | none => (special? cs).map fun rest => (.float (taken cs rest), rest)

/-- A number of exactly `count` digits within bounds. -/
def counted? (count low high : Nat) (cs : List Char) : Option (Nat × List Char) :=
  let ds := cs.take count
  let n := digitsValue 10 ds
  if ds.length == count && ds.all Char.isDigit && low ≤ n && n ≤ high then some (n, cs.drop count)
  else none

def mark? (mark : Char) : List Char → Option (List Char)
  | c :: rest => if c == mark then some rest else none
  | [] => none

def daysIn (year month : Nat) : Nat :=
  match month with
  | 2 => if year % 4 == 0 && (year % 100 != 0 || year % 400 == 0) then 29 else 28
  | 4 | 6 | 9 | 11 => 30
  | _ => 31

/-- What follows a date. -/
def date? (cs : List Char) : Option (List Char) := do
  let (year, cs) ← counted? 4 0 9999 cs
  let cs ← mark? '-' cs
  let (month, cs) ← counted? 2 1 12 cs
  let cs ← mark? '-' cs
  let (_, cs) ← counted? 2 1 (daysIn year month) cs
  return cs

/-- What follows a fraction of a second, which may be left out. -/
def skipFraction : List Char → List Char
  | '.' :: c :: rest => if c.isDigit then rest.dropWhile Char.isDigit else '.' :: c :: rest
  | cs => cs

/-- What follows a time of the day. A minute may have a leap second. -/
def time? (cs : List Char) : Option (List Char) := do
  let (_, cs) ← counted? 2 0 23 cs
  let cs ← mark? ':' cs
  let (_, cs) ← counted? 2 0 59 cs
  let cs ← mark? ':' cs
  let (_, cs) ← counted? 2 0 60 cs
  return skipFraction cs

/-- What follows an offset, which may be left out; `none` for one that is incomplete. -/
def skipOffset? : List Char → Option (List Char)
  | 'Z' :: rest => some rest
  | 'z' :: rest => some rest
  | c :: rest =>
    if c == '+' || c == '-' then do
      let (_, cs) ← counted? 2 0 23 rest
      let cs ← mark? ':' cs
      let (_, cs) ← counted? 2 0 59 cs
      return cs
    else some (c :: rest)
  | [] => some []

/-- What follows a time after a date, which may be left out. -/
def skipTime? : List Char → Option (List Char)
  | c :: rest =>
    if c == 'T' || c == 't' || c == ' ' then
      match time? rest with
      | some after => skipOffset? after
      | none => some (c :: rest)
    else some (c :: rest)
  | [] => some []

def moment? (cs : List Char) : Option (Toml × List Char) :=
  let rest? := match date? cs with
    | some rest => skipTime? rest
    | none => time? cs
  rest?.map fun rest => (.moment (taken cs rest), rest)

end ClientGen.Toml
