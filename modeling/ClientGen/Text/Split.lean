import ClientGen.Text.CharClass

/-!
# Cutting and trimming text

Small operations on characters in order, and the same on strings.

* `lines`: the lines, with either kind of line end.
* `trim`: without blanks at either end.
-/

namespace ClientGen.Text

/-- The characters before and after the first `sep`, if there is one. -/
def cut? (sep : Char) : List Char → Option (List Char × List Char)
  | [] => none
  | c :: rest =>
    if c = sep then some ([], rest)
    else (cut? sep rest).map fun (before, after) => (c :: before, after)

/-- The texts between separators; one more than there are separators. -/
def pieces (sep : Char) : List Char → List (List Char)
  | [] => [[]]
  | c :: rest =>
    if c = sep then [] :: pieces sep rest
    else match pieces sep rest with
      | [] => [[c]]
      | head :: tail => (c :: head) :: tail

def dropEndWhile (p : Char → Bool) (cs : List Char) : List Char :=
  (cs.reverse.dropWhile p).reverse

def trimChars (cs : List Char) : List Char :=
  dropEndWhile isBlank (cs.dropWhile isBlank)

def trim (s : String) : String :=
  String.ofList (trimChars s.toList)

/-- The text before and after the first `sep`, if there is one. -/
def cutString? (sep : Char) (s : String) : Option (String × String) :=
  (cut? sep s.toList).map fun (before, after) => (String.ofList before, String.ofList after)

/-- The texts between separators. -/
def piecesOf (sep : Char) (s : String) : List String :=
  (pieces sep s.toList).map String.ofList

/-- The line without a carriage return at its end. -/
def dropReturn (line : List Char) : List Char :=
  match line.reverse with
  | '\r' :: front => front.reverse
  | _ => line

/-- The lines whose texts stand between line ends. All but the last text have an end, to which a
carriage return right before it belongs; the last is a line if it is not empty. -/
def linesOf : List (List Char) → List (List Char)
  | [] => []
  | [last] => if last.isEmpty then [] else [last]
  | line :: rest => dropReturn line :: linesOf rest

def lines (s : String) : List String :=
  (linesOf (pieces '\n' s.toList)).map String.ofList

/-- The first line; the empty text has none. -/
def firstLine? (s : String) : Option String := (lines s).head?

/-- Does the part stand somewhere in the text? -/
def hasPart (part : List Char) : List Char → Bool
  | [] => part.isEmpty
  | c :: rest => part.isPrefixOf (c :: rest) || hasPart part rest

/-- Each character written as `f` says. -/
def respell (f : Char → List Char) (s : String) : String :=
  String.ofList (s.toList.flatMap f)

def replaceChar (old new : Char) (s : String) : String :=
  s.map fun c => if c = old then new else c

end ClientGen.Text
