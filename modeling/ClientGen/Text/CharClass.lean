import ClientGen.Text.Unicode

/-!
# Character classes

The Unicode classes that names and documentation are read with. ASCII characters are decided by
range, all others by the tables of Unicode.

* `isAlphanumeric`, `isNumeric`, `isLower`, `isUpper`: the classes that word boundaries depend on.
-/

namespace ClientGen.Text

def isAscii (c : Char) : Bool := c.toNat < 128

def isAlphabetic (c : Char) : Bool :=
  if isAscii c then c.isAlpha else inRuns false alphabeticRuns c.toNat

def isNumeric (c : Char) : Bool :=
  if isAscii c then c.isDigit else inRuns false numericRuns c.toNat

def isAlphanumeric (c : Char) : Bool := isAlphabetic c || isNumeric c

def isLower (c : Char) : Bool :=
  if isAscii c then c.isLower else inRuns false lowercaseRuns c.toNat

def isUpper (c : Char) : Bool :=
  if isAscii c then c.isUpper else inRuns false uppercaseRuns c.toNat

/-- The 25 code points with the Unicode property `White_Space`. -/
def isBlank (c : Char) : Bool :=
  let n := c.toNat
  (0x9 ≤ n && n ≤ 0xd) || n == 0x20 || n == 0x85 || n == 0xa0 || n == 0x1680 ||
    (0x2000 ≤ n && n ≤ 0x200a) || n == 0x2028 || n == 0x2029 || n == 0x202f || n == 0x205f ||
    n == 0x3000

/-- Marks that attach to the character before them. -/
def isExtender (c : Char) : Bool :=
  !isAscii c && inRuns false extenderRuns c.toNat

/-- Characters that may be left out where they cannot be shown. -/
def isIgnorable (c : Char) : Bool :=
  !isAscii c && inRuns false ignorableRuns c.toNat

/-- Characters with a shape of their own; of the blanks, only the space of ASCII. -/
def isPrintable (c : Char) : Bool :=
  if isAscii c then 0x20 ≤ c.toNat && c.toNat < 0x7f else !inRuns false unprintableRuns c.toNat

def isAsciiAlphanumeric (c : Char) : Bool := c.isAlpha || c.isDigit

def isIdentifierHead (c : Char) : Bool := c.isAlpha || c == '_'

def isIdentifierTail (c : Char) : Bool := c.isAlpha || c.isDigit || c == '_'

/-- Identifiers: a letter or underscore of ASCII, then letters, digits and underscores. -/
def isIdentifier (cs : List Char) : Bool :=
  match cs with
  | [] => false
  | c :: rest => isIdentifierHead c && rest.all isIdentifierTail

end ClientGen.Text
