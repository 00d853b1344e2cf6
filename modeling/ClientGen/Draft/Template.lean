import ClientGen.Error

/-!
# Templates

A template is text with placeholders. `$L`, `$S`, `$T` and `$C` take the next argument as it
stands, as a quoted string, as a type or as a block of code; `$2L` takes an argument by its
position; `${name:L}` takes a value from the scopes; `${C|}` is `$C`; and `$$` is a
dollar sign.

* `Template.parse`: the tokens of a template.
-/

namespace ClientGen.Template

/-- Which argument a placeholder takes. -/
inductive Index where
  | next
  /-- By position, counted from one. -/
  | position (n : Nat)
deriving DecidableEq, Repr

inductive Token where
  | text (s : String)
  | dollar
  | argument (index : Index) (format : Format)
  | named (name : String) (format : Format)
deriving DecidableEq, Repr

/-- The format that a character stands for. -/
def format (template : String) : Option Char → Except TemplateError Format
  | some 'L' => .ok .literal
  | some 'S' => .ok .string
  | some 'T' => .ok .type
  | some 'C' => .ok .code
  | some c => .error (.unknownFormat c template)
  | none => .error (.missingFormat template)

/-- A placeholder in braces, given the text between them. -/
def braced (template : String) (inner : List Char) : Except TemplateError Token :=
  if inner = ['C', '|'] then .ok (.argument .next .code)
  else match Text.cut? ':' inner with
    | none => .error (.notNamed (String.ofList inner) template)
    | some (name, rest) => do
      let f ← format template rest.head?
      if name.isEmpty || f = .code then throw (.invalidNamed (String.ofList inner) template)
      return .named (String.ofList name) f

/-- The greatest position that can be written. -/
def maxPosition : Nat := Nat.pow 2 64 - 1

def decimalValue (digits : List Char) : Nat :=
  digits.foldl (fun n c => n * 10 + (c.toNat - '0'.toNat)) 0

/-- The placeholder after a dollar sign, and the text after it. -/
def placeholder (template : String) : List Char → Except TemplateError (Token × List Char)
  | [] => .error (.dangling template)
  | '$' :: rest => .ok (.dollar, rest)
  | '\x7b' :: rest =>
    match Text.cut? '\x7d' rest with
    | none => .error (.unterminated template)
    | some (inner, after) => (braced template inner).map fun token => (token, after)
  | c :: rest =>
    if c.isDigit then
      let digits := (c :: rest).takeWhile Char.isDigit
      let after := (c :: rest).dropWhile Char.isDigit
      let n := decimalValue digits
      if maxPosition < n then .error (.badPosition template)
      else if n = 0 then .error (.zeroPosition template)
      else (format template after.head?).map fun f => (.argument (.position n) f, after.tail)
    else (format template (some c)).map fun f => (.argument .next f, rest)

/-- The tokens of a text. Every step takes a character, so the length bounds the steps. -/
def tokens (template : String) : Nat → List Char → Except TemplateError (List Token)
  | 0, _ => .ok []
  | _ + 1, [] => .ok []
  | fuel + 1, '$' :: rest => do
    let (token, after) ← placeholder template rest
    let more ← tokens template fuel after
    return token :: more
  | fuel + 1, cs => do
    let more ← tokens template fuel (cs.dropWhile (· != '$'))
    return .text (String.ofList (cs.takeWhile (· != '$'))) :: more

def parse (template : String) : Except TemplateError (List Token) :=
  tokens template (template.toList.length + 1) template.toList

/-- How many placeholders take the next argument. -/
def relativeCount (ts : List Token) : Nat :=
  ts.countP fun
    | .argument .next _ => true
    | _ => false

/-- The positions that placeholders name. -/
def positions (ts : List Token) : List Nat :=
  ts.filterMap fun
    | .argument (.position n) _ => some n
    | _ => none

/-- Are the positions exactly those from one to `count`? -/
def coversAll (ps : List Nat) (count : Nat) : Bool :=
  ps.all (fun p => 1 ≤ p && p ≤ count) && (List.range count).all fun i => ps.contains (i + 1)

/-- Placeholders take all arguments in turn, or name every position. -/
def checkArity (template : String) (ts : List Token) (count : Nat) : Except TemplateError Unit :=
  let relative := relativeCount ts
  let ps := positions ts
  if relative > 0 && !ps.isEmpty then .error (.mixed template)
  else if ps.isEmpty then
    if relative = count then .ok () else .error (.wrongCount template relative count)
  else if coversAll ps count then .ok ()
  else .error (.unusedArgument template count)

end ClientGen.Template
