import ClientGen.Error
import ClientGen.Json.Printer
import ClientGen.Text.Case

/-!
# Pages

Text with tags in double braces, for the files of a package that are not Python. A tag is a
variable of the data, a helper with one, or the start or end of a block: `#if` keeps its body if a
variable is set, `#each` repeats it for the items of a list. A block tag that has a line for itself
takes the line with it.

* `Page.parse`: the parts that the lines of a page make up.
* `Page.render`: the text for given data. In strict mode a variable that is missing is an error.
-/

namespace ClientGen.Page

inductive Part where
  | text (s : String)
  | value (name : String)
  | helper (name argument : String)
  | ifSet (name : String) (body : List Part)
  | each (name : String) (body : List Part)

/-- Text, or the words of a tag. -/
inductive Mark where
  | text (s : String)
  | tag (words : List String)

/-- The text before and after two closing braces. -/
def cutTag : List Char → Option (List Char × List Char)
  | '\x7d' :: '\x7d' :: rest => some ([], rest)
  | c :: rest => (cutTag rest).map fun (before, after) => (c :: before, after)
  | [] => none

def words (cs : List Char) : List String :=
  ((Text.pieces ' ' cs).filter fun w => !w.isEmpty).map String.ofList

/-- The text up to the first tag, and what follows it. -/
def cutText : List Char → List Char × List Char
  | '\x7b' :: '\x7b' :: rest => ([], '\x7b' :: '\x7b' :: rest)
  | c :: rest =>
    let (before, after) := cutText rest
    (c :: before, after)
  | [] => ([], [])

/-- The marks of a text. Every step takes a character, so the length bounds the steps. -/
def marks : Nat → List Char → Option (List Mark)
  | 0, _ => some []
  | _ + 1, [] => some []
  | fuel + 1, '\x7b' :: '\x7b' :: rest => do
    let (inner, after) ← cutTag rest
    let more ← marks fuel after
    return .tag (words inner) :: more
  | fuel + 1, cs => do
    let (before, after) := cutText cs
    let more ← marks fuel after
    return .text (String.ofList before) :: more

/-- A line that holds a block tag and nothing else but blanks. -/
def isBlockLine (line : List Char) : Bool :=
  match Text.trimChars line with
  | '\x7b' :: '\x7b' :: c :: rest =>
    (c == '#' || c == '/') &&
      match cutTag rest with
      | some (_, []) => true
      | _ => false
  | _ => false

/-- The text without the rest of lines that hold a block tag only. -/
def joinLines : List (List Char) → List Char
  | [] => []
  | [line] => if isBlockLine line then Text.trimChars line else line
  | line :: rest =>
    if isBlockLine line then Text.trimChars line ++ joinLines rest
    else line ++ '\n' :: joinLines rest

/-- A block that has been opened. -/
inductive Block where
  | ifSet (name : String)
  | each (name : String)

def Block.close (body : List Part) : Block → Part
  | .ifSet name => .ifSet name body
  | .each name => .each name body

/-- Is the word one that only a block may start with? -/
def isBlockWord (w : String) : Bool :=
  match w.toList with
  | '#' :: _ => true
  | '/' :: _ => true
  | _ => false

/-- The parts that marks make up; `blocks` are the open blocks with the parts before them, and
`done` the parts of the innermost block so far, last first. -/
def assemble : List Mark → List (Block × List Part) → List Part → Option (List Part)
  | [], [], done => some done.reverse
  | [], _ :: _, _ => none
  | .text s :: rest, blocks, done => assemble rest blocks (.text s :: done)
  | .tag ["#if", name] :: rest, blocks, done => assemble rest ((.ifSet name, done) :: blocks) []
  | .tag ["#each", name] :: rest, blocks, done => assemble rest ((.each name, done) :: blocks) []
  | .tag ["/if"] :: rest, (.ifSet name, outer) :: blocks, done =>
    assemble rest blocks (.ifSet name done.reverse :: outer)
  | .tag ["/each"] :: rest, (.each name, outer) :: blocks, done =>
    assemble rest blocks (.each name done.reverse :: outer)
  | .tag [name] :: rest, blocks, done =>
    if isBlockWord name then none else assemble rest blocks (.value name :: done)
  | .tag [name, argument] :: rest, blocks, done =>
    if isBlockWord name then none else assemble rest blocks (.helper name argument :: done)
  | .tag _ :: _, _, _ => none

def parse (lines : List (List Char)) : Option (List Part) := do
  let cs := joinLines lines
  let ms ← marks (cs.length + 1) cs
  assemble ms [] []

/-! ### Rendering -/

/-- A value as pages show it. -/
def plain : Json → String
  | .null => ""
  | .str s => s
  | v => v.text

/-- The variable of the given name; `this` is the data itself. -/
def find? (data : Json) (name : String) : Option Json :=
  if name == "this" then some data
  else match data with
    | .obj members => Json.Object.get? members name
    | _ => none

def isSet : Json → Bool
  | .null => false
  | .bool b => b
  | .str s => !s.isEmpty
  | .arr items => !items.isEmpty
  | v => !v.isZero

/-- Functions that tags may apply to a text. -/
def helper? (name : String) : Option (String → Except Error String) :=
  match name with
  | "namespace_name" => some fun s => (ShapeId.read s).map ShapeId.ns
  | "shape_name" => some fun s => (ShapeId.read s).map ShapeId.name
  | "to_pascal_case" => some fun s => .ok (Text.pascalCase s)
  | "to_snake_case" => some fun s => .ok (Text.snakeCase s)
  | _ => none

/-- The variable of a tag; in strict mode it has to be there. -/
def lookup (strict : Bool) (data : Json) (name : String) : Except Error Json :=
  match find? data name with
  | some v => .ok v
  | none => if strict then .error (.rendering ("no variable " ++ name)) else .ok .null

def applyHelper (name : String) (argument : Json) : Except Error String :=
  match helper? name, argument with
  | some f, .str s =>
    match f s with
    | .ok text => .ok text
    | .error e => .error (.rendering e.message)
  | some _, _ => .error (.rendering (name ++ " expects a string"))
  | none, _ => .error (.rendering ("no helper " ++ name))

mutual

def renderPart (strict : Bool) : Part → Json → Except Error String
  | .text s, _ => .ok s
  | .value name, data =>
    if (helper? name).isSome then .error (.rendering (name ++ " expects a string"))
    else (lookup strict data name).map plain
  | .helper name argument, data => do
    let v ← lookup strict data argument
    applyHelper name v
  | .ifSet name body, data => do
    let v ← lookup strict data name
    if isSet v then renderParts strict body data else return ""
  | .each name body, data => do
    match ← lookup strict data name with
    | .arr items =>
      let texts ← items.mapM (renderParts strict body)
      return String.join texts
    | _ => return ""

def renderParts (strict : Bool) : List Part → Json → Except Error String
  | [], _ => .ok ""
  | p :: rest, data => do
    let first ← renderPart strict p data
    let more ← renderParts strict rest data
    return first ++ more

end

/-- The text of a page, given by its lines, for given data. -/
def renderLines (strict : Bool) (lines : List (List Char)) (data : Json) : Except Error String :=
  match parse lines with
  | some parts => renderParts strict parts data
  | none => .error (.rendering "malformed page")

def render (strict : Bool) (page : String) (data : Json) : Except Error String :=
  renderLines strict (Text.pieces '\n' page.toList) data

end ClientGen.Page
