import ClientGen.Disk.Basic

/-!
# A disk in memory

`Tree` holds files and directories by name. Paths are followed name by name: each name but the last
must lead to a directory, `..` leads to the directory that holds the one at hand, and a separator at
the end asks for a directory. A path that is too long is refused as a whole.

* `Tree.read`, `Tree.write`, `Tree.makeDirectory`, `Tree.list`: the operations and their faults.
* `Tree.resolve`: the path without detours. It goes by single names, so a long way to a short place
  is no fault.
-/

namespace ClientGen.Disk

/-- A file, or a directory with what it holds by name. -/
inductive Node where
  | file (bytes : ByteArray)
  | directory (entries : List (String × Node))

/-- The names from the root to a file or directory. -/
abbrev Place := List String

namespace Node

def kind : Node → Kind
  | .file _ => .file
  | .directory _ => .directory

def empty : Node := .directory []

/-- What a directory holds. -/
def entries : Node → List (String × Node)
  | .file _ => []
  | .directory es => es

/-- The entries with one changed; one that is missing is added at the end. -/
def alter (name : String) (f : Option Node → Node) : List (String × Node) → List (String × Node)
  | [] => [(name, f none)]
  | (n, node) :: rest =>
    if n == name then (n, f (some node)) :: rest else (n, node) :: alter name f rest

/-- The node with another one put at a place below it. Directories on the way are made. -/
def put (new : Node) : Place → Node → Node
  | [], _ => new
  | name :: rest, node =>
    .directory (alter name (fun old => put new rest (old.getD empty)) node.entries)

mutual

/-- The place of each file at or below a node. -/
def files : Node → List Place
  | .file _ => [[]]
  | .directory es => filesIn es

def filesIn : List (String × Node) → List Place
  | [] => []
  | (name, node) :: rest => (files node).map (name :: ·) ++ filesIn rest

end

end Node

/-- Where a path has led to: the names on the way and the directories that hold them, innermost
first, and what stands there, if anything does. -/
structure Spot where
  names : List String := []
  holders : List Node := []
  node : Option Node

namespace Spot

def place (s : Spot) : Place := s.names.reverse

/-- The entries of the directory that stands here. -/
def entries (s : Spot) : Except DiskFault (List (String × Node)) :=
  match s.node with
  | some (.directory es) => .ok es
  | some (.file _) => .error .notADirectory
  | none => .error .notFound

/-- The spot of a name in the directory that stands here. -/
def below (s : Spot) (es : List (String × Node)) (name : String) : Spot where
  names := name :: s.names
  holders := .directory es :: s.holders
  node := (es.find? fun e => e.1 == name).map (·.2)

/-- The spot of the directory that holds this one; the root holds itself. -/
def above (s : Spot) : Spot :=
  match s.holders with
  | [] => s
  | holder :: rest => { names := s.names.tail, holders := rest, node := some holder }

/-- Where a piece of a path leads to. -/
def step (s : Spot) (piece : List Char) : Except DiskFault Spot := do
  let es ← s.entries
  if Path.isFiller piece then return s
  if piece == ['.', '.'] then return s.above
  let name := String.ofList piece
  if maxName < name.utf8ByteSize then throw .nameTooLong
  return s.below es name

/-- Where pieces of a path lead to; nothing needs to stand there. -/
def walk (s : Spot) (pieces : List (List Char)) : Except DiskFault Spot := pieces.foldlM step s

end Spot

/-- Files and directories by name, from the root on. -/
structure Tree where
  entries : List (String × Node) := []

namespace Tree

def root (t : Tree) : Node := .directory t.entries

/-- Puts a node at a place, in place of the one there, with the directories that hold it. -/
def put (t : Tree) (place : Place) (node : Node) : Tree := ⟨(node.put place t.root).entries⟩

def spot (t : Tree) (place : Place) : Spot :=
  place.foldl (fun s name => s.below ((s.node.getD .empty).entries) name) { node := some t.root }

/-- Where a path starts, and its pieces. A path that is empty or has a zero byte leads nowhere. -/
def begin (t : Tree) (here : Place) (path : Path) : Except DiskFault (Spot × List (List Char)) :=
  let cs := path.text.toList
  if cs.contains '\x00' then .error .zeroByte
  else match cs with
    | [] => .error .notFound
    | '/' :: rest => .ok (t.spot [], Text.pieces '/' rest)
    | cs => .ok (t.spot here, Text.pieces '/' cs)

/-- Where a path starts, and its pieces, unless it is too long. -/
def start (t : Tree) (here : Place) (path : Path) : Except DiskFault (Spot × List (List Char)) := do
  let (first, pieces) ← t.begin here path
  if maxPath < path.text.utf8ByteSize then throw .nameTooLong
  return (first, pieces)

/-- The spot that a path leads to from a directory. -/
def follow (t : Tree) (here : Place) (path : Path) : Except DiskFault Spot := do
  let (first, pieces) ← t.start here path
  first.walk pieces

/-- What stands where a path leads to. -/
def find (t : Tree) (here : Place) (path : Path) : Except DiskFault Node := do
  match (← t.follow here path).node with
  | some node => return node
  | none => throw .notFound

def kind? (t : Tree) (here : Place) (path : Path) : Option Kind :=
  match t.find here path with
  | .ok node => some node.kind
  | .error _ => none

def read (t : Tree) (here : Place) (path : Path) : Except DiskFault ByteArray := do
  match ← t.find here path with
  | .file bytes => return bytes
  | .directory _ => throw .isADirectory

def list (t : Tree) (here : Place) (path : Path) : Except DiskFault (List String) := do
  let es ← (← t.follow here path).entries
  return es.map (·.1)

/-- The path from the root to a place. -/
def spell (place : Place) : Path := ⟨"/" ++ "/".intercalate place⟩

def resolve (t : Tree) (here : Place) (path : Path) : Except DiskFault Path := do
  let (first, pieces) ← t.begin here path
  let s ← first.walk pieces
  if s.node.isNone then throw .notFound
  return spell s.place

/-- The last piece of a path to something new, with the pieces before it and whether a separator
follows it; `none` for a path that names nothing, such as the root. -/
def lastPiece? (pieces : List (List Char)) : Option (List (List Char) × List Char × Bool) :=
  let kept := (pieces.reverse.dropWhile List.isEmpty).reverse
  match kept.getLast? with
  | none => none
  | some last => some (kept.dropLast, last, kept.length < pieces.length)

/-- Writes a file, which a path that ends in a separator or a dot cannot name. -/
def write (t : Tree) (here : Place) (path : Path) (bytes : ByteArray) : Except DiskFault Tree := do
  let (first, pieces) ← t.start here path
  match lastPiece? pieces with
  | none => throw .isADirectory
  | some (front, last, ended) =>
    let holder ← first.walk front
    let _ ← holder.entries
    if ended || last == ['.'] || last == ['.', '.'] then throw .isADirectory
    let s ← holder.step last
    match s.node with
    | some (.directory _) => throw .isADirectory
    | _ => return t.put s.place (.file bytes)

/-- Makes a directory where nothing stands. -/
def makeDirectory (t : Tree) (here : Place) (path : Path) : Except DiskFault Tree := do
  let (first, pieces) ← t.start here path
  match lastPiece? pieces with
  | none => throw .exists
  | some (front, last, _) =>
    let holder ← first.walk front
    let _ ← holder.entries
    if last == ['.'] || last == ['.', '.'] then throw .exists
    let s ← holder.step last
    if s.node.isSome then throw .exists
    return t.put s.place .empty

/-- The names on the way to each file below a directory. -/
def filesBelow (t : Tree) (dir : Place) : List Place := ((t.spot dir).node.getD .empty).files

end Tree

end ClientGen.Disk
