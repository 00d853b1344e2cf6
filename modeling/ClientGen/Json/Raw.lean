import ClientGen.Json.Number

/-!
# Reading JSON

A document is read in two steps. `Raw.read` checks the grammar and keeps what was written, since
the parts that a reader skips need no more than that; `Raw.value?` gives the value of a part that
is used. A used part has its numbers in range, its strings free of lone surrogates, and at most 127
containers around each other.
-/

namespace ClientGen.Json

/-- A document as written. A string with a lone surrogate has no text. -/
inductive Raw where
  | null
  | bool (b : Bool)
  | number (literal : NumberLiteral)
  | string (s : Option String)
  | array (items : List Raw)
  | object (members : List (Option String × Raw))

namespace Raw

def isSpace (c : Char) : Bool := c == ' ' || c == '\t' || c == '\n' || c == '\r'

def skipSpace (cs : List Char) : List Char := cs.dropWhile isSpace

def digitOf (c : Char) : Nat := c.toNat - '0'.toNat

def scanDigits (cs : List Char) : List Nat × List Char :=
  ((cs.takeWhile Char.isDigit).map digitOf, cs.dropWhile Char.isDigit)

/-- A nonempty run of digits. -/
def scanDigits1 (cs : List Char) : Option (List Nat × List Char) :=
  match scanDigits cs with
  | ([], _) => none
  | r => some r

def scanExponent (cs : List Char) : Option (Option (Bool × List Nat) × List Char) :=
  match cs with
  | c :: rest =>
    if c == 'e' || c == 'E' then
      let (down, rest) := match rest with
        | '+' :: r => (false, r)
        | '-' :: r => (true, r)
        | r => (false, r)
      (scanDigits1 rest).map fun (ds, r) => (some (down, ds), r)
    else some (none, cs)
  | [] => some (none, [])

def scanFraction (cs : List Char) : Option (Option (List Nat) × List Char) :=
  match cs with
  | '.' :: rest => (scanDigits1 rest).map fun (ds, r) => (some ds, r)
  | _ => some (none, cs)

/-- A number; a zero in front stands alone. -/
def scanNumber (cs : List Char) : Option (NumberLiteral × List Char) := do
  let (negative, cs) := match cs with
    | '-' :: r => (true, r)
    | r => (false, r)
  let (whole, cs) ← scanDigits1 cs
  if whole.length > 1 && whole.head? == some 0 then none
  let (fraction, cs) ← scanFraction cs
  let (exponent, cs) ← scanExponent cs
  return ({ negative, whole, fraction, exponent }, cs)

def hexValue? (c : Char) : Option Nat :=
  if c.isDigit then some (c.toNat - '0'.toNat)
  else if 'a' ≤ c && c ≤ 'f' then some (c.toNat - 'a'.toNat + 10)
  else if 'A' ≤ c && c ≤ 'F' then some (c.toNat - 'A'.toNat + 10)
  else none

def hexFour? (a b c d : Char) : Option Nat := do
  let a ← hexValue? a
  let b ← hexValue? b
  let c ← hexValue? c
  let d ← hexValue? d
  return ((a * 16 + b) * 16 + c) * 16 + d

/-- A code unit of a string: a character, or a surrogate. -/
inductive Piece where
  | char (c : Char)
  | high (n : Nat)
  | low (n : Nat)

def Piece.ofUnit (n : Nat) : Piece :=
  if 0xd800 ≤ n && n < 0xdc00 then .high n
  else if 0xdc00 ≤ n && n < 0xe000 then .low n
  else .char (Char.ofNat n)

def simpleEscape? (c : Char) : Option Char :=
  match c with
  | '"' => some '"'
  | '\\' => some '\\'
  | '/' => some '/'
  | 'b' => some '\x08'
  | 'f' => some '\x0c'
  | 'n' => some '\n'
  | 'r' => some '\r'
  | 't' => some '\t'
  | _ => none

/-- The code units of a string after its opening quote, and what follows the closing one. Control
characters stand only escaped. -/
def stringPieces : List Char → Option (List Piece × List Char)
  | [] => none
  | '"' :: rest => some ([], rest)
  | '\\' :: 'u' :: a :: b :: c :: d :: rest =>
    match hexFour? a b c d with
    | some n => (stringPieces rest).map fun (ps, r) => (Piece.ofUnit n :: ps, r)
    | none => none
  | '\\' :: e :: rest =>
    match simpleEscape? e with
    | some c => (stringPieces rest).map fun (ps, r) => (.char c :: ps, r)
    | none => none
  | c :: rest =>
    if c.toNat < 0x20 || c == '\\' then none
    else (stringPieces rest).map fun (ps, r) => (.char c :: ps, r)

/-- The characters of a string; `none` for a surrogate without its partner. -/
def joinPieces : List Piece → Option (List Char)
  | [] => some []
  | .char c :: rest => (joinPieces rest).map (c :: ·)
  | .high h :: .low l :: rest =>
    (joinPieces rest).map (Char.ofNat (0x10000 + (h - 0xd800) * 0x400 + (l - 0xdc00)) :: ·)
  | _ => none

def scanString (cs : List Char) : Option (Option String × List Char) :=
  (stringPieces cs).map fun (ps, r) => ((joinPieces ps).map String.ofList, r)

/-- The text after a given word. -/
def scanWord (w : List Char) (cs : List Char) : Option (List Char) :=
  if w.isPrefixOf cs then some (cs.drop w.length) else none

mutual

/-- A value and the text after it. Every step takes a character, so the number of characters
bounds the steps. -/
def scanValue (fuel : Nat) (cs : List Char) : Option (Raw × List Char) :=
  match fuel with
  | 0 => none
  | fuel + 1 =>
    match skipSpace cs with
    | 'n' :: rest => (scanWord ['u', 'l', 'l'] rest).map fun r => (.null, r)
    | 't' :: rest => (scanWord ['r', 'u', 'e'] rest).map fun r => (.bool true, r)
    | 'f' :: rest => (scanWord ['a', 'l', 's', 'e'] rest).map fun r => (.bool false, r)
    | '"' :: rest => (scanString rest).map fun (s, r) => (.string s, r)
    | '[' :: rest =>
      match skipSpace rest with
      | ']' :: r => some (.array [], r)
      | r => (scanItems fuel r).map fun (vs, r) => (.array vs, r)
    | '\x7b' :: rest =>
      match skipSpace rest with
      | '\x7d' :: r => some (.object [], r)
      | r => (scanMembers fuel r).map fun (ms, r) => (.object ms, r)
    | r => (scanNumber r).map fun (l, r) => (.number l, r)

/-- The items of an array up to its end, at least one. -/
def scanItems (fuel : Nat) (cs : List Char) : Option (List Raw × List Char) :=
  match fuel with
  | 0 => none
  | fuel + 1 => do
    let (v, cs) ← scanValue fuel cs
    match skipSpace cs with
    | ',' :: r => (scanItems fuel r).map fun (vs, r) => (v :: vs, r)
    | ']' :: r => some ([v], r)
    | _ => none

/-- The members of an object up to its end, at least one. -/
def scanMembers (fuel : Nat) (cs : List Char) : Option (List (Option String × Raw) × List Char) :=
  match fuel with
  | 0 => none
  | fuel + 1 =>
    match skipSpace cs with
    | '"' :: rest => do
      let (key, cs) ← scanString rest
      match skipSpace cs with
      | ':' :: r => do
        let (v, cs) ← scanValue fuel r
        match skipSpace cs with
        | ',' :: r => (scanMembers fuel r).map fun (ms, r) => ((key, v) :: ms, r)
        | '\x7d' :: r => some ([(key, v)], r)
        | _ => none
      | _ => none
    | _ => none

end

def read (s : String) : Option Raw :=
  let cs := s.toList
  match scanValue (2 * cs.length + 2) cs with
  | some (v, rest) => if (skipSpace rest).isEmpty then some v else none
  | none => none

/-- The most containers around each other. -/
def maxDepth : Nat := 127

mutual

/-- The value of a part; `room` is how many more containers may open. -/
def value? (room : Nat) : Raw → Option Json
  | .null => some .null
  | .bool b => some (.bool b)
  | .number l => l.value
  | .string s => s.map .str
  | .array vs => if room == 0 then none else (items? (room - 1) vs).map .arr
  | .object ms => if room == 0 then none else (object? (room - 1) ms).map .obj

def items? (room : Nat) : List Raw → Option (List Json)
  | [] => some []
  | v :: rest => do
    let v ← value? room v
    let vs ← items? room rest
    return v :: vs

/-- The members in order; a repeated key keeps its first place and takes the last value. -/
def object? (room : Nat) : List (Option String × Raw) → Option Object
  | [] => some []
  | (k, v) :: rest => do
    let k ← k
    let v ← value? room v
    let others ← object? room rest
    match Object.get? others k with
    | some last => return (k, last) :: others.filter (·.1 != k)
    | none => return (k, v) :: others

end

/-- Pairs each declared field with its value in an object. A field given twice is an error, as is a
key without a text; other keys are skipped. -/
def namedFields (names : List String) : List (Option String × Raw) → Option (List (String × Raw))
  | [] => some []
  | (none, _) :: _ => none
  | (some k, v) :: rest => do
    let others ← namedFields names rest
    if names.contains k then
      if others.any (·.1 == k) then none else return (k, v) :: others
    else return others

/-- The fields of a record, in the order of their names, `none` for one left out. A record is an
object, or an array of its fields from the first one on. -/
def fields (names : List String) : Raw → Option (List (Option Raw))
  | .object ms => (namedFields names ms).map fun found =>
      names.map fun n => (found.find? (·.1 == n)).map (·.2)
  | .array vs =>
    if names.length < vs.length then none
    else some ((List.range names.length).map fun i => vs[i]?)
  | _ => none

end Raw

/-- Reads a document that is used as a whole. -/
def read (s : String) : Option Json := do
  let v ← Raw.read s
  Raw.value? Raw.maxDepth v

end ClientGen.Json
