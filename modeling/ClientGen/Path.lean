import ClientGen.Text.Split

/-!
# Paths

A path is a text; what it denotes is the list of its components. Separators that repeat or end a
path count nothing, nor does a component `.` unless it is the first.
-/

namespace ClientGen

/-- A path as it is spelled. -/
structure Path where
  text : String
deriving DecidableEq, Repr, Inhabited

namespace Path

inductive Component where
  | root
  /-- A leading `.`. -/
  | here
  | up
  | name (s : String)
deriving DecidableEq, Repr

/-- Names come last, in order of their characters. -/
def Component.rank : Component → Nat
  | .root => 0
  | .here => 1
  | .up => 2
  | .name _ => 3

def Component.compare : Component → Component → Ordering
  | .name a, .name b => Ord.compare a b
  | a, b => Ord.compare a.rank b.rank

/-- A piece between separators that is no component. -/
def isFiller (piece : List Char) : Bool := piece == [] || piece == ['.']

/-- The part before the first component that may be left out: a separator, a `.`, or nothing; and
the pieces between separators after it. -/
def split (cs : List Char) : List Char × List (List Char) :=
  match cs with
  | '/' :: rest => (['/'], Text.pieces '/' rest)
  | ['.'] => (['.'], [[]])
  | '.' :: '/' :: rest => (['.'], [] :: Text.pieces '/' rest)
  | cs => ([], Text.pieces '/' cs)

def isAbsolute (p : Path) : Bool := p.text.toList.head? == some '/'

def pieceComponent (piece : List Char) : Component :=
  if piece == ['.', '.'] then .up else .name (String.ofList piece)

/-- What the path denotes. -/
def components (p : Path) : List Component :=
  let (head, pieces) := split p.text.toList
  let first := match head with
    | ['/'] => [Component.root]
    | ['.'] => [.here]
    | _ => []
  first ++ (pieces.filter fun piece => !isFiller piece).map pieceComponent

def compareComponents : List Component → List Component → Ordering
  | [], [] => .eq
  | [], _ :: _ => .lt
  | _ :: _, [] => .gt
  | a :: as, b :: bs => (a.compare b).then (compareComponents as bs)

/-- Paths are ordered by what they denote. -/
instance : Ord Path := ⟨fun a b => compareComponents a.components b.components⟩

def dropFiller (pieces : List (List Char)) : List (List Char) :=
  (pieces.reverse.dropWhile isFiller).reverse

def joinPieces : List (List Char) → List Char
  | [] => []
  | [piece] => piece
  | piece :: rest => piece ++ '/' :: joinPieces rest

/-- The path without its last component; none for the empty path and the root. -/
def parent? (p : Path) : Option Path :=
  let (head, pieces) := split p.text.toList
  match dropFiller pieces with
  | [] => if head == ['.'] then some ⟨""⟩ else none
  | kept => some ⟨String.ofList (head ++ joinPieces (dropFiller kept.dropLast))⟩

/-- The paths of all directories that hold the path, innermost first; `fuel` bounds their number. -/
def ancestorsWithin : Nat → Path → List Path
  | 0, _ => []
  | fuel + 1, p =>
    match p.parent? with
    | none => []
    | some dir => if dir.text.isEmpty then [] else dir :: ancestorsWithin fuel dir

/-- The directories that hold the path, innermost first, the one that it is relative to apart. Each
is shorter than the one before. -/
def ancestors (p : Path) : List Path := ancestorsWithin p.text.length p

/-- The name of the last component, if it has one. -/
def fileName? (p : Path) : Option (List Char) :=
  match (dropFiller (split p.text.toList).2).getLast? with
  | none => none
  | some piece => if piece == ['.', '.'] then none else some piece

/-- The text after the last dot of the file's name, unless that dot comes first. -/
def extension? (p : Path) : Option String := do
  let name ← p.fileName?
  let after := name.reverse.takeWhile (· != '.')
  let before := name.reverse.dropWhile (· != '.')
  match before with
  | [] => none
  | [_] => none
  | _ => some (String.ofList after.reverse)

/-- A path below another one; an absolute path stands for itself. -/
def join (base p : Path) : Path :=
  if p.isAbsolute || base.text.isEmpty then p
  else if base.text.toList.getLast? == some '/' then ⟨base.text ++ p.text⟩
  else ⟨base.text ++ "/" ++ p.text⟩

end Path

end ClientGen
