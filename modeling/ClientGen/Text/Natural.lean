import ClientGen.Text.CharClass

/-!
# Natural order

The order in which package names are listed: letters without regard to case, punctuation skipped,
runs of digits by their number. Texts that agree so far are ordered by their characters, so only
equal texts compare equal.
-/

namespace ClientGen.Text

/-- The ASCII spelling of a letter of the Latin-1 range, in lower case. -/
def latinSpelling (c : Char) : List Char :=
  let n := c.toNat
  if 0xc0 ≤ n && n ≤ 0xc5 || 0xe0 ≤ n && n ≤ 0xe5 || n == 0xaa then ['a']
  else if n == 0xc6 || n == 0xe6 then ['a', 'e']
  else if n == 0xc7 || n == 0xe7 then ['c']
  else if 0xc8 ≤ n && n ≤ 0xcb || 0xe8 ≤ n && n ≤ 0xeb then ['e']
  else if 0xcc ≤ n && n ≤ 0xcf || 0xec ≤ n && n ≤ 0xef then ['i']
  else if n == 0xd0 || n == 0xf0 then ['d']
  else if n == 0xd1 || n == 0xf1 then ['n']
  else if 0xd2 ≤ n && n ≤ 0xd6 || 0xf2 ≤ n && n ≤ 0xf6 || n == 0xd8 || n == 0xf8 || n == 0xba then
    ['o']
  else if 0xd9 ≤ n && n ≤ 0xdc || 0xf9 ≤ n && n ≤ 0xfc || n == 0xb5 then ['u']
  else if n == 0xdd || n == 0xfd || n == 0xff then ['y']
  else if n == 0xde || n == 0xfe then ['t', 'h']
  else if n == 0xdf then ['s', 's']
  else if n == 0xb2 then ['2']
  else if n == 0xb3 then ['3']
  else if n == 0xb9 then ['1']
  else []

/-- How a natural order spells letters and reads numbers. -/
structure Collation where
  /-- The ASCII spelling, in lower case, of a letter or numeral outside ASCII. -/
  spelling : Char → List Char := latinSpelling
  /-- The number of a run of digits that goes on with a digit. -/
  extend : Nat → Nat → Nat := fun n digit => n * 10 + digit

/-- The characters that take part in the comparison. -/
def naturalKey (spelling : Char → List Char) (s : String) : List Char :=
  s.toList.flatMap fun c =>
    if isAscii c then (if c.isAlpha || c.isDigit then [c.toLower] else [])
    else if isAlphanumeric c then spelling c
    else []

def digitValue (c : Char) : Nat := c.toNat - '0'.toNat

def compareChar (a b : Char) : Ordering := compare a.toNat b.toNat

/-- Compares keys. While both sides are inside a run of digits, `run` holds the numbers read so
far; the longer run is greater, runs of one length compare by number. -/
def compareKeys (extend : Nat → Nat → Nat) :
    Option (Nat × Nat) → List Char → List Char → Ordering
  | none, [], [] => .eq
  | none, [], _ :: _ => .lt
  | none, _ :: _, [] => .gt
  | none, a :: as, b :: bs =>
    if a.isDigit && b.isDigit then compareKeys extend (some (digitValue a, digitValue b)) as bs
    else match compareChar a b with
      | .eq => compareKeys extend none as bs
      | other => other
  | some (m, n), [], [] => compare m n
  | some (m, n), [], b :: _ =>
    if b.isDigit then .lt
    else match compare m n with
      | .eq => .lt
      | other => other
  | some (m, n), a :: _, [] =>
    if a.isDigit then .gt
    else match compare m n with
      | .eq => .gt
      | other => other
  | some (m, n), a :: as, b :: bs =>
    if a.isDigit then
      if b.isDigit then
        compareKeys extend (some (extend m (digitValue a), extend n (digitValue b))) as bs
      else .gt
    else if b.isDigit then .lt
    else match compare m n with
      | .eq => match compareChar a b with
        | .eq => compareKeys extend none as bs
        | other => other
      | other => other

/-- Texts by their characters. -/
def compareChars : List Char → List Char → Ordering
  | [], [] => .eq
  | [], _ :: _ => .lt
  | _ :: _, [] => .gt
  | a :: as, b :: bs =>
    match compareChar a b with
    | .eq => compareChars as bs
    | other => other

def compareNatural (c : Collation) (a b : String) : Ordering :=
  match compareKeys c.extend none (naturalKey c.spelling a) (naturalKey c.spelling b) with
  | .eq => compareChars a.toList b.toList
  | other => other

end ClientGen.Text
