import ClientGen.Draft.Imports
import ClientGen.Draft.Section
import ClientGen.Text.Utf8

/-!
# Drafts

The text of one Python file while it is written, with the indentation of new lines, the imports
that the text needs, and a stack of scopes that hold values for templates.

* `Draft.put`: appends text. A line that is not empty starts with the indentation.

Offsets and columns count bytes.
-/

namespace ClientGen

/-- A value that templates may name. -/
inductive ContextValue where
  | literal (s : String)
  | symbol (s : Symbol)

/-- An open scope: its values, the section it stands for, and what to return to when it closes. -/
structure Scope where
  values : List (String × ContextValue) := []
  place : Option Section := none
  /-- Where the section's own text begins. -/
  start : Nat := 0
  indent : Nat := 0
  blockIndent : Nat := 0

/-- A file that is being written. -/
structure Draft where
  /-- The module that the file is. -/
  ns : String
  package : String
  text : ByteArray := .empty
  imports : Imports := {}
  /-- In order of package and version. -/
  dependencies : List Dependency := []
  /-- The values outside all scopes. -/
  values : List (String × ContextValue) := []
  /-- The open scopes, innermost first. -/
  scopes : List Scope := []
  indent : Nat := 0
  /-- Columns that lines are moved by, because of the blocks they are in. -/
  blockIndent : Nat := 0
  atLineStart : Bool := true
  /-- Bytes on the line after its indentation. -/
  column : Nat := 0

/-- A symbol, the symbols it refers to, the ones they refer to, and so on. -/
def Symbol.closure : Symbol → List Symbol
  | s@{ references, .. } => s :: closures references
where
  closures : List Symbol → List Symbol
    | [] => []
    | r :: rest => Symbol.closure r ++ closures rest

/-- What a symbol is called in a module. -/
def Symbol.textIn (s : Symbol) (ns : String) : String :=
  if s.ns == ns then s.name else s.importedName

namespace Draft

/-- Columns of one level of indentation. -/
def indentWidth : Nat := 4

/-- The indentation of new lines. -/
def lead (d : Draft) : Nat := d.indent * indentWidth + d.blockIndent

def spaces (n : Nat) : ByteArray := ⟨Array.replicate n 0x20⟩

/-- Appends a character. The first one of a line that is not its end comes after the indentation. -/
def putChar (d : Draft) (c : Char) : Draft :=
  if c = '\n' then
    { d with text := d.text.push 0x0a, atLineStart := true, column := 0 }
  else if d.atLineStart then
    { d with
      text := d.text ++ spaces d.lead ++ c.toString.toUTF8
      atLineStart := false
      column := d.column + c.utf8Size }
  else
    { d with text := d.text ++ c.toString.toUTF8, column := d.column + c.utf8Size }

def put (d : Draft) (s : String) : Draft := s.toList.foldl putChar d

/-- How many of the first `n` bytes stand after the last line end among them. -/
def lastLine (text : ByteArray) : Nat → Nat
  | 0 => 0
  | n + 1 => if text[n]? == some 0x0a then 0 else lastLine text n + 1

/-- The line state that the text shows. -/
def resetLine (d : Draft) : Draft :=
  let width := lastLine d.text d.text.size
  { d with atLineStart := width == 0, column := width - d.lead }

def truncate (d : Draft) (size : Nat) : Draft :=
  { d with text := d.text.extract 0 size }

def addDependency (d : Draft) (dep : Dependency) : Draft :=
  { d with dependencies := insertSorted dep d.dependencies }

/-- Records a symbol's dependencies, and its import unless it is a builtin or of this module. -/
def importOne (d : Draft) (s : Symbol) : Draft :=
  let d := s.dependencies.foldl addDependency d
  if s.isBuiltin || s.ns == d.ns then d
  else { d with imports := d.imports.add s.ns { name := s.name, localName := s.localName } }

/-- Records what a mention of the symbol needs. -/
def importSymbol (d : Draft) (s : Symbol) : Draft := s.closure.foldl importOne d

def importModule (d : Draft) (module : String) : Draft :=
  { d with imports := d.imports.addModule module }

/-- Writes a symbol's name and records what it needs. -/
def mention (d : Draft) (s : Symbol) : Draft :=
  (d.importSymbol s).put (s.textIn d.ns)

/-- Writes a symbol's name as a quoted forward reference. -/
def mentionDeferred (d : Draft) (s : Symbol) : Draft :=
  (d.importSymbol s).put ("\"" ++ s.textIn d.ns ++ "\"")

def setValue (key : String) (v : ContextValue) (values : List (String × ContextValue)) :
    List (String × ContextValue) :=
  (key, v) :: values.filter fun e => e.1 != key

def findValue? (key : String) (values : List (String × ContextValue)) : Option ContextValue :=
  (values.find? fun e => e.1 == key).map (·.2)

/-- Sets a value in the innermost scope. -/
def putValue (d : Draft) (key : String) (v : ContextValue) : Draft :=
  match d.scopes with
  | [] => { d with values := setValue key v d.values }
  | top :: rest => { d with scopes := { top with values := setValue key v top.values } :: rest }

/-- The value of a name, from the innermost scope that has it. -/
def value? (d : Draft) (key : String) : Option ContextValue :=
  match d.scopes.findSome? fun s => findValue? key s.values with
  | some v => some v
  | none => findValue? key d.values

def openScope (d : Draft) (place : Option Section) : Draft :=
  { d with
    scopes := {
      place, start := d.text.size, indent := d.indent, blockIndent := d.blockIndent } ::
        d.scopes }

/-- Lets the text of the innermost scope begin here. -/
def restartScope (d : Draft) : Draft :=
  match d.scopes with
  | [] => d
  | top :: rest => { d with scopes := { top with start := d.text.size } :: rest }

/-- Closes the innermost scope and returns to the indentation it was opened at. -/
def closeScope (d : Draft) : Draft :=
  match d.scopes with
  | [] => d
  | top :: rest => { d with scopes := rest, indent := top.indent, blockIndent := top.blockIndent }

/-- Writes a docstring, unless the documentation is blank. -/
def putDocs (d : Draft) (docs : String) : Draft :=
  match Text.trimChars docs.toList with
  | [] => d
  | cs =>
    let body := Text.docstringBody cs
    let close := if body.contains '\n' then "\n\"\"\"\n" else "\"\"\"\n"
    d.put ("\"\"\"" ++ String.ofList body ++ close)

/-- The text written so far. -/
def body (d : Draft) : String := Text.decodeLossy d.text

/-- The first line of every generated file. -/
def marker : String := "# Code generated by shapegen. DO NOT EDIT."

/-- The file: marker, imports, and the text without empty lines at either end. -/
def render (d : Draft) : String :=
  let imports := d.imports.text d.package
  let isLineEnd (c : Char) := c == '\n'
  let body := Text.dropEndWhile isLineEnd (d.body.toList.dropWhile isLineEnd)
  marker ++ "\n" ++
    (if imports.isEmpty then "" else "\n" ++ imports ++ "\n") ++
    (if body.isEmpty then "" else "\n\n" ++ String.ofList body ++ "\n")

end Draft

end ClientGen
