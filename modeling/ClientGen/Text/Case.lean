import ClientGen.Text.Split

/-!
# Naming styles

`snakeCase`, `screamingCase` and `pascalCase` turn a name into the styles of attributes, constants
and classes. Characters that are neither letters nor digits separate words; a trailing run of them
is dropped first.

In the first two styles a capital or a digit starts a word when a neighbour is lower case. The
neighbours of the character at byte offset `i` are the characters numbered `i + 1` and `i - 1` of
the whole name, so the rule looks at the adjacent characters for names in ASCII, and past them
after a longer character.
-/

namespace ClientGen.Text

def asciiUpper (c : Char) : Char := c.toUpper

def asciiLower (c : Char) : Char := c.toLower

/-- The name without its trailing characters that are neither letters nor digits. -/
def nameBody (name : List Char) : List Char :=
  dropEndWhile (fun c => !isAlphanumeric c) name

/-- A character that is its own capital in ASCII: capitals, digits, and all outside ASCII. -/
def isOwnCapital (c : Char) : Bool := c == asciiUpper c

/-- The character numbered `i` is lower case; past the end none is. -/
def isLowerAt (name : List Char) (i : Nat) : Bool :=
  match name[i]? with
  | some c => isLower c
  | none => false

/-- Does a character at byte offset `i` of the name start a new word? -/
def startsWord (name : List Char) (i : Nat) (c : Char) : Bool :=
  isOwnCapital c && (isLowerAt name (i + 1) || isLowerAt name (i - 1))

/-- Words of the name joined by underscores. `first` holds at the start of a word, `i` is the byte
offset of the next character. -/
def joinWords (style : Char → Char) (name : List Char) (first : Bool) (i : Nat) :
    List Char → List Char
  | [] => []
  | c :: rest =>
    let next := i + c.utf8Size
    if !isAlphanumeric c then
      if first then joinWords style name true next rest
      else '_' :: joinWords style name true next rest
    else if !first && startsWord name i c then
      '_' :: style c :: joinWords style name false next rest
    else style c :: joinWords style name false next rest

/-- `fooBar` as `foo_bar`. -/
def snakeCase (s : String) : String :=
  String.ofList (joinWords asciiLower s.toList true 0 (nameBody s.toList))

/-- `fooBar` as `FOO_BAR`. -/
def screamingCase (s : String) : String :=
  String.ofList (joinWords asciiUpper s.toList true 0 (nameBody s.toList))

/-- Where the scan of a name for capitals stands: at a word start, after which lower-case letter,
and whether anything has been written. -/
structure PascalState where
  newWord : Bool := true
  last : Char := ' '
  found : Bool := false

def pascalChars (st : PascalState) : List Char → List Char
  | [] => []
  | c :: rest =>
    if !isAlphanumeric c then
      pascalChars (if st.found then { st with newWord := true } else st) rest
    else if isNumeric c then
      c :: pascalChars { st with found := true, newWord := true } rest
    else if st.newWord || (isLower st.last && isUpper c && st.last != ' ') then
      asciiUpper c :: pascalChars { st with found := true, newWord := false } rest
    else
      asciiLower c :: pascalChars { st with found := true, last := c } rest

/-- `foo_bar` as `FooBar`. -/
def pascalCase (s : String) : String :=
  String.ofList (pascalChars {} (nameBody s.toList))

end ClientGen.Text
