import ClientGen.Toml.Literal
import ClientGen.Toml.Quoted

/-!
# TOML keys and values

* `key?`: a key, which is a sequence of names divided by dots.
-/

namespace ClientGen.Toml

/-- A key as a sequence of names. -/
abbrev Key := List String

/-- The most containers in each other, and the most names of a key. -/
def maxDepth : Nat := 79

def isBare (c : Char) : Bool := c.isAlphanum || c == '_' || c == '-'

def name? (cs : List Char) : Option (String × List Char) :=
  match cs.takeWhile isBare with
  | [] => scanLine? cs
  | name => some (String.ofList name, cs.dropWhile isBare)

/-- The names of a key, blanks around each, at most `room` of them. -/
def names? : Nat → List Char → Option (Key × List Char)
  | 0, _ => none
  | room + 1, cs => do
    let (name, cs) ← name? (skipSpace cs)
    match skipSpace cs with
    | '.' :: rest => (names? room rest).map fun (ns, r) => (name :: ns, r)
    | rest => return ([name], rest)

def key? (cs : List Char) : Option (Key × List Char) := names? maxDepth cs

/-- What follows a comment, up to its line end; `none` if a control character stands in it. -/
def skipComment? (cs : List Char) : Option (List Char) :=
  match cs with
  | '#' :: rest =>
    let after := rest.dropWhile isPlain
    match after with
    | [] => some []
    | after => (lineEnd? after).map fun _ => after
  | cs => some cs

/-- What follows blanks, comments and line ends. -/
def skipFiller? : Nat → List Char → Option (List Char)
  | 0, _ => none
  | fuel + 1, cs =>
    let cs := skipSpace cs
    match cs with
    | '#' :: _ => do
      let after ← skipComment? cs
      match lineEnd? after with
      | some rest => skipFiller? fuel rest
      | none => none
    | cs =>
      match lineEnd? cs with
      | some rest => skipFiller? fuel rest
      | none => some cs

/-- Tables within an inline table. A dotted key opens tables; a table that is a value is closed. -/
inductive Inline where
  | value (v : Toml)
  | opened (entries : List (String × Inline))

namespace Inline

/-- Sets a value at a key of an inline table. Each key is set once, and only tables that dotted
keys opened can be extended. -/
def assign (key : Key) (v : Toml) (entries : List (String × Inline)) :
    Option (List (String × Inline)) :=
  match key with
  | [] => none
  | [name] => if entries.any (·.1 == name) then none else some (entries ++ [(name, .value v)])
  | name :: rest =>
    match entries.find? (·.1 == name) with
    | none => (assign rest v []).map fun es => entries ++ [(name, .opened es)]
    | some (_, .opened inner) =>
      (assign rest v inner).map fun es =>
        entries.map fun e => if e.1 == name then (name, .opened es) else e
    | some (_, .value _) => none

mutual

def toToml : Inline → Toml
  | .value v => v
  | .opened entries => .table (entriesToToml entries)

def entriesToToml : List (String × Inline) → List (String × Toml)
  | [] => []
  | (k, v) :: rest => (k, toToml v) :: entriesToToml rest

end

/-- The table that pairs make up, in order. -/
def ofPairs (pairs : List (Key × Toml)) : Option Toml :=
  (pairs.foldlM (fun entries (key, v) => assign key v entries) []).map fun entries =>
    .table (entriesToToml entries)

end Inline

/-- A number or a moment; a moment starts like a number, so it is tried first. -/
def number? (cs : List Char) : Option (Toml × List Char) :=
  (moment? cs).or ((float? cs).or (integer? cs))

/-- The text after a given word. -/
def word? (w cs : List Char) : Option (List Char) :=
  if w.isPrefixOf cs then some (cs.drop w.length) else none

mutual

/-- A value and what follows it; `room` is how many more containers may open. Every step takes a
character or ends, so twice their number bounds the steps. -/
def value? (fuel room : Nat) (cs : List Char) : Option (Toml × List Char) :=
  match fuel with
  | 0 => none
  | fuel + 1 =>
    match cs with
    | [] => none
    | c :: rest =>
      if c == '"' || c == '\'' then (scanText? cs).map fun (s, r) => (.string s, r)
      else if c == '[' then
        if room == 0 then none
        else (items? fuel (room - 1) rest).map fun (vs, r) => (.array vs, r)
      else if c == '\x7b' then
        if room == 0 then none
        else do
          let (pairs, r) ← match skipSpace rest with
            | '\x7d' :: r => some ([], r)
            | r => pairs? fuel (room - 1) r
          let t ← Inline.ofPairs pairs
          return (t, r)
      else if c == 't' then (word? ['t', 'r', 'u', 'e'] cs).map fun r => (.boolean true, r)
      else if c == 'f' then (word? ['f', 'a', 'l', 's', 'e'] cs).map fun r => (.boolean false, r)
      else number? cs

/-- The items of an array up to its end. A comma may follow the last one; comments and line ends
may stand around each. -/
def items? (fuel room : Nat) (cs : List Char) : Option (List Toml × List Char) :=
  match fuel with
  | 0 => none
  | fuel + 1 => do
    let cs ← skipFiller? (cs.length + 1) cs
    match cs with
    | ']' :: r => return ([], r)
    | cs => do
      let (v, cs) ← value? fuel room cs
      let cs ← skipFiller? (cs.length + 1) cs
      match cs with
      | ',' :: r => (items? fuel room r).map fun (vs, r) => (v :: vs, r)
      | ']' :: r => return ([v], r)
      | _ => none

/-- The pairs of an inline table up to its end, at least one. -/
def pairs? (fuel room : Nat) (cs : List Char) : Option (List (Key × Toml) × List Char) :=
  match fuel with
  | 0 => none
  | fuel + 1 => do
    let (key, cs) ← key? cs
    let cs ← mark? '=' cs
    let (v, cs) ← value? fuel room (skipSpace cs)
    match skipSpace cs with
    | ',' :: r => (pairs? fuel room r).map fun (ps, r) => ((key, v) :: ps, r)
    | '\x7d' :: r => return ([(key, v)], r)
    | _ => none

end

end ClientGen.Toml
