import ClientGen.Toml.Value

/-!
# TOML documents

A document is a list of statements, read one after another and then carried out on an empty table.
-/

namespace ClientGen.Toml

inductive Statement where
  /-- A table's header. -/
  | header (key : Key)
  /-- The header of a further table of an array. -/
  | itemHeader (key : Key)
  | assign (key : Key) (value : Toml)

/-- What follows the end of a line, which blanks and a comment may precede. -/
def finishLine? (cs : List Char) : Option (List Char) := do
  let rest ← skipComment? (skipSpace cs)
  match rest with
  | [] => some []
  | rest => lineEnd? rest

def header? (cs : List Char) : Option (Statement × List Char) := do
  let (key, cs) ← key? cs
  let cs ← mark? ']' cs
  let cs ← finishLine? cs
  return (.header key, cs)

def itemHeader? (cs : List Char) : Option (Statement × List Char) := do
  let (key, cs) ← key? cs
  let cs ← mark? ']' cs
  let cs ← mark? ']' cs
  let cs ← finishLine? cs
  return (.itemHeader key, cs)

def assignment? (cs : List Char) : Option (Statement × List Char) := do
  let (key, cs) ← key? cs
  let cs ← mark? '=' cs
  let cs := skipSpace cs
  let (value, cs) ← value? (2 * cs.length + 2) maxDepth cs
  let cs ← finishLine? cs
  return (.assign key value, cs)

/-- The statements of a text; empty lines and comments are none. -/
def statementsWithin : Nat → List Char → Option (List Statement)
  | 0, _ => none
  | fuel + 1, cs =>
    match skipSpace cs with
    | [] => some []
    | '[' :: '[' :: rest => next fuel (itemHeader? rest)
    | '[' :: rest => next fuel (header? rest)
    | '#' :: rest => do
      let rest ← finishLine? ('#' :: rest)
      statementsWithin fuel rest
    | cs =>
      match lineEnd? cs with
      | some rest => statementsWithin fuel rest
      | none => next fuel (assignment? cs)
where
  next (fuel : Nat) : Option (Statement × List Char) → Option (List Statement)
    | none => none
    | some (s, rest) => (statementsWithin fuel rest).map (s :: ·)

/-- The statements of a text, which a byte order mark may precede. -/
def statements? (s : String) : Option (List Statement) :=
  let cs := match s.toList with
    | '\ufeff' :: rest => rest
    | cs => cs
  statementsWithin (cs.length + 1) cs

/-- How a table came to be, which decides what may be added to it. -/
inductive Origin where
  /-- By its header. -/
  | header
  /-- By a longer header. -/
  | implied
  /-- By a dotted key. -/
  | dotted
deriving DecidableEq, Repr

/-- What stands at a name of a table. -/
inductive Node where
  | value (v : Toml)
  | table (origin : Origin) (entries : List (String × Node))
  /-- An array of tables, the last one first. -/
  | tables (last : List (String × Node)) (others : List (List (String × Node)))

abbrev Nodes := List (String × Node)

namespace Nodes

def get? (ns : Nodes) (name : String) : Option Node :=
  (ns.find? fun n => n.1 == name).map (·.2)

/-- Puts a node at a name, in place of the one there. -/
def set (name : String) (node : Node) : Nodes → Nodes
  | [] => [(name, node)]
  | (k, v) :: rest => if k == name then (k, node) :: rest else (k, v) :: set name node rest

/-- Changes the table at a key, through the last table of each array on the way; tables that are
not there are implied. -/
def at? (key : Key) (change : Nodes → Option Nodes) (ns : Nodes) : Option Nodes :=
  match key with
  | [] => change ns
  | name :: rest =>
    match get? ns name with
    | none => (at? rest change []).map fun inner => set name (.table .implied inner) ns
    | some (.table origin inner) =>
      (at? rest change inner).map fun inner => set name (.table origin inner) ns
    | some (.tables last others) =>
      (at? rest change last).map fun last => set name (.tables last others) ns
    | some (.value _) => none

/-- Sets a value at a key of a section, whose table `takes` values if it is the section's own or came
from a dotted key. Names on the way may not lead to a table with a header of its own, and the last
name must be free. -/
def assign? (takes : Bool) (key : Key) (v : Toml) (ns : Nodes) : Option Nodes :=
  match key with
  | [] => none
  | [name] => if !takes || (get? ns name).isSome then none else some (set name (.value v) ns)
  | name :: rest =>
    match get? ns name with
    | none => (assign? true rest v []).map fun inner => set name (.table .dotted inner) ns
    | some (.table .header _) => none
    | some (.table origin inner) =>
      (assign? (origin == .dotted) rest v inner).map fun inner => set name (.table origin inner) ns
    | some (.tables last others) =>
      (assign? false rest v last).map fun last => set name (.tables last others) ns
    | some (.value _) => none

/-- Defines the table of a header. A table that only longer headers implied keeps its entries. -/
def open? (name : String) (ns : Nodes) : Option Nodes :=
  match get? ns name with
  | none => some (set name (.table .header []) ns)
  | some (.table .implied inner) => some (set name (.table .header inner) ns)
  | some _ => none

/-- Adds a table to an array of tables. -/
def append? (name : String) (ns : Nodes) : Option Nodes :=
  match get? ns name with
  | none => some (set name (.tables [] []) ns)
  | some (.tables last others) => some (set name (.tables [] (last :: others)) ns)
  | some _ => none

mutual

def toToml : Node → Toml
  | .value v => v
  | .table _ entries => .table (entriesToToml entries)
  | .tables last others => .array (itemsToToml others [.table (entriesToToml last)])

def entriesToToml : List (String × Node) → List (String × Toml)
  | [] => []
  | (k, v) :: rest => (k, toToml v) :: entriesToToml rest

/-- The tables of an array in order, from the last one back. -/
def itemsToToml : List (List (String × Node)) → List Toml → List Toml
  | [], done => done
  | t :: rest, done => itemsToToml rest (.table (entriesToToml t) :: done)

end

end Nodes

/-- A document being read: its table, and the key of the section at hand. -/
structure Progress where
  root : Nodes := []
  place : Key := []

def Progress.step? (p : Progress) : Statement → Option Progress
  | .assign key v => (Nodes.at? p.place (Nodes.assign? true key v) p.root).map fun root =>
      { p with root }
  | .header key => do
    let root ← Nodes.at? key.dropLast (Nodes.open? (key.getLastD "")) p.root
    return { root, place := key }
  | .itemHeader key => do
    let root ← Nodes.at? key.dropLast (Nodes.append? (key.getLastD "")) p.root
    return { root, place := key }

/-- The table of a document, or `none` if it is malformed or defines something twice. -/
def read (s : String) : Option Entries := do
  let statements ← statements? s
  let done ← statements.foldlM Progress.step? {}
  return Nodes.entriesToToml done.root

end ClientGen.Toml
