import ClientGen.Text.Split

/-!
# Quoted text

* `quote`: a Python string literal in double quotes.
* `docstringBody`: documentation between the two delimiters of a docstring.
* `inspect`: a text as messages show it.
-/

namespace ClientGen.Text

/-- How a character stands in a Python string literal. -/
def quoteChar (c : Char) : List Char :=
  match c with
  | '"' => ['\\', '"']
  | '\\' => ['\\', '\\']
  | '\n' => ['\\', 'n']
  | '\r' => ['\\', 'r']
  | '\t' => ['\\', 't']
  | c => [c]

/-- A Python string literal for the text. -/
def quote (s : String) : String :=
  String.ofList ('"' :: s.toList.flatMap quoteChar ++ ['"'])

def doubleBackslashes (cs : List Char) : List Char :=
  cs.flatMap fun c => if c = '\\' then ['\\', '\\'] else [c]

/-- Each run of three quotes, from the left, with a backslash before every quote. -/
def escapeDelimiters : List Char → List Char
  | '"' :: '"' :: '"' :: rest => '\\' :: '"' :: '\\' :: '"' :: '\\' :: '"' :: escapeDelimiters rest
  | c :: rest => c :: escapeDelimiters rest
  | [] => []

/-- A backslash before a final quote that has none: next to the closing delimiter it would end the
literal early. -/
def escapeFinalQuote (cs : List Char) : List Char :=
  match cs.reverse with
  | '"' :: front =>
    if (front.takeWhile (· == '\\')).length % 2 == 0 then (('"' :: '\\' :: front) : List Char).reverse
    else cs
  | _ => cs

/-- Documentation as it stands between the delimiters of a docstring. -/
def docstringBody (cs : List Char) : List Char :=
  escapeFinalQuote (escapeDelimiters (doubleBackslashes cs))

/-- Digits to base 16, at least one. -/
def hexDigits (n : Nat) : List Char := Nat.toDigits 16 n

/-- How a character stands in a text that a message shows. -/
def inspectChar (c : Char) : List Char :=
  match c with
  | '\x00' => ['\\', '0']
  | '\t' => ['\\', 't']
  | '\r' => ['\\', 'r']
  | '\n' => ['\\', 'n']
  | '\\' => ['\\', '\\']
  | '"' => ['\\', '"']
  | c =>
    if isPrintable c && !isExtender c && !isIgnorable c then [c]
    else ['\\', 'u', '\x7b'] ++ hexDigits c.toNat ++ ['\x7d']

/-- The text in double quotes, with control characters, extenders, ignorable and unprintable
characters by their code points. -/
def inspect (s : String) : String :=
  String.ofList ('"' :: s.toList.flatMap inspectChar ++ ['"'])

end ClientGen.Text
