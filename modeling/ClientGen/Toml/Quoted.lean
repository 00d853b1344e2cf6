/-!
# TOML strings

The four kinds of strings. Each scanner starts after the opening quotes and returns the text and
what follows the closing quotes.

* `basic`: one line, with escapes.
* `basicLines`, `literalLines`: several lines; a line end right after the opening quotes is left
  out, and a carriage return before a line end is dropped.
-/

namespace ClientGen.Toml

def isSpace (c : Char) : Bool := c == ' ' || c == '\t'

def skipSpace (cs : List Char) : List Char := cs.dropWhile isSpace

/-- May the character stand unescaped in a line? Control characters other than the tab may not. -/
def isPlain (c : Char) : Bool := c == '\t' || (' ' ≤ c && c != '\x7f')

/-- What follows a line end, if the text starts with one. -/
def lineEnd? : List Char → Option (List Char)
  | '\n' :: rest => some rest
  | '\r' :: '\n' :: rest => some rest
  | _ => none

def hexDigit? (c : Char) : Option Nat :=
  if '0' ≤ c && c ≤ '9' then some (c.toNat - '0'.toNat)
  else if 'a' ≤ c && c ≤ 'f' then some (c.toNat - 'a'.toNat + 10)
  else if 'A' ≤ c && c ≤ 'F' then some (c.toNat - 'A'.toNat + 10)
  else none

def hexNumber? (digits : List Char) : Option Nat :=
  digits.foldlM (fun n c => (hexDigit? c).map (n * 16 + ·)) 0

/-- The character with a number, unless the number is a surrogate's or too large. -/
def charOf? (n : Nat) : Option Char := if n.isValidChar then some (Char.ofNat n) else none

/-- The character that a number of hexadecimal digits gives. -/
def numbered? (count : Nat) (cs : List Char) : Option (Char × List Char) :=
  if cs.length < count then none
  else do
    let n ← hexNumber? (cs.take count)
    let c ← charOf? n
    return (c, cs.drop count)

/-- The character that an escape stands for, from the text after the backslash. -/
def escape? : List Char → Option (Char × List Char)
  | 'b' :: rest => some ('\x08', rest)
  | 't' :: rest => some ('\t', rest)
  | 'n' :: rest => some ('\n', rest)
  | 'f' :: rest => some ('\x0c', rest)
  | 'r' :: rest => some ('\r', rest)
  | '"' :: rest => some ('"', rest)
  | '\\' :: rest => some ('\\', rest)
  | 'u' :: rest => numbered? 4 rest
  | 'U' :: rest => numbered? 8 rest
  | _ => none

/-- A string of one line with escapes. Every step takes a character, so their number bounds the
steps. -/
def basicWithin : Nat → List Char → Option (List Char × List Char)
  | 0, _ => none
  | _ + 1, [] => none
  | _ + 1, '"' :: rest => some ([], rest)
  | fuel + 1, '\\' :: rest => do
    let (c, rest) ← escape? rest
    (basicWithin fuel rest).map fun (s, r) => (c :: s, r)
  | fuel + 1, c :: rest =>
    if isPlain c then (basicWithin fuel rest).map fun (s, r) => (c :: s, r) else none

def basic (cs : List Char) : Option (List Char × List Char) := basicWithin (cs.length + 1) cs

/-- A string of one line, as written. -/
def literal : List Char → Option (List Char × List Char)
  | [] => none
  | '\'' :: rest => some ([], rest)
  | c :: rest => if isPlain c then (literal rest).map fun (s, r) => (c :: s, r) else none

/-- The number of quotes that the text starts with. -/
def quotes (q : Char) (cs : List Char) : Nat := (cs.takeWhile (· == q)).length

/-- What follows blanks and line ends. -/
def skipLines : List Char → List Char
  | '\n' :: rest => skipLines rest
  | '\r' :: '\n' :: rest => skipLines rest
  | ' ' :: rest => skipLines rest
  | '\t' :: rest => skipLines rest
  | cs => cs

/-- The end of a string of several lines. Of up to five quotes, the last three close it. -/
def closing (q : Char) (cs : List Char) : List Char × List Char :=
  let count := min (quotes q cs) 5
  (List.replicate (count - 3) q, cs.drop count)

/-- A string of several lines with escapes. A backslash at the end of a line joins it to the next
character that is neither blank nor line end. -/
def basicLinesWithin : Nat → List Char → Option (List Char × List Char)
  | 0, _ => none
  | _ + 1, [] => none
  | fuel + 1, c :: rest =>
    if c == '"' then
      if 3 ≤ quotes '"' (c :: rest) then some (closing '"' (c :: rest))
      else (basicLinesWithin fuel rest).map fun (s, r) => (c :: s, r)
    else if c == '\\' then
      match lineEnd? (skipSpace rest) with
      | some next => basicLinesWithin fuel (skipLines next)
      | none => do
        let (c, rest) ← escape? rest
        (basicLinesWithin fuel rest).map fun (s, r) => (c :: s, r)
    else match lineEnd? (c :: rest) with
      | some next => (basicLinesWithin fuel next).map fun (s, r) => ('\n' :: s, r)
      | none =>
        if isPlain c then (basicLinesWithin fuel rest).map fun (s, r) => (c :: s, r) else none

/-- A string of several lines, as written. -/
def literalLinesWithin : Nat → List Char → Option (List Char × List Char)
  | 0, _ => none
  | _ + 1, [] => none
  | fuel + 1, c :: rest =>
    if c == '\'' then
      if 3 ≤ quotes '\'' (c :: rest) then some (closing '\'' (c :: rest))
      else (literalLinesWithin fuel rest).map fun (s, r) => (c :: s, r)
    else match lineEnd? (c :: rest) with
      | some next => (literalLinesWithin fuel next).map fun (s, r) => ('\n' :: s, r)
      | none =>
        if isPlain c then (literalLinesWithin fuel rest).map fun (s, r) => (c :: s, r) else none

/-- The text without a line end in front. -/
def dropLineEnd (cs : List Char) : List Char := (lineEnd? cs).getD cs

def basicLines (cs : List Char) : Option (List Char × List Char) :=
  basicLinesWithin (cs.length + 1) (dropLineEnd cs)

def literalLines (cs : List Char) : Option (List Char × List Char) :=
  literalLinesWithin (cs.length + 1) (dropLineEnd cs)

/-- A string of one line, from its opening quote on. -/
def scanLine? : List Char → Option (String × List Char)
  | '"' :: rest => (basic rest).map fun (s, r) => (String.ofList s, r)
  | '\'' :: rest => (literal rest).map fun (s, r) => (String.ofList s, r)
  | _ => none

/-- A string of any kind, from its opening quotes on. -/
def scanText? : List Char → Option (String × List Char)
  | '"' :: '"' :: '"' :: rest => (basicLines rest).map fun (s, r) => (String.ofList s, r)
  | '\'' :: '\'' :: '\'' :: rest => (literalLines rest).map fun (s, r) => (String.ofList s, r)
  | cs => scanLine? cs

end ClientGen.Toml
