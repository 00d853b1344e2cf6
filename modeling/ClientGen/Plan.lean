import ClientGen.Draft.Folder
import ClientGen.Symbol.Table

/-!
# Plans

Computations that look up symbols and emit what is to be written. What a plan emits does not depend
on what was emitted before it. A plan that fails keeps what it has emitted, and the steps it was
nested in end with the failure, so that carrying out the steps meets faults in the order in which
they stand.

* `Plan Step`: emits steps of a script.
* `Plan Edit`: emits edits of files.
-/

namespace ClientGen

/-- What a plan emitted, how it ended, and the symbols looked up. -/
structure Planned (ω α : Type) where
  out : List ω
  result : Except Error α
  names : Table

/-- A plan, given the symbols looked up before it. -/
def Plan (ω α : Type) : Type := Table → Planned ω α

namespace Plan

variable {ω α β : Type}

protected def pure (a : α) : Plan ω α := fun t => ⟨[], .ok a, t⟩

def fail (e : Error) : Plan ω α := fun t => ⟨[], .error e, t⟩

protected def bind (x : Plan ω α) (f : α → Plan ω β) : Plan ω β := fun t =>
  let r := x t
  match r.result with
  | .error e => ⟨r.out, .error e, r.names⟩
  | .ok a =>
    let s := f a r.names
    ⟨r.out ++ s.out, s.result, s.names⟩

instance : Monad (Plan ω) where
  pure := Plan.pure
  bind := Plan.bind

instance : Inhabited (Plan ω α) := ⟨fail (.other (.custom ""))⟩

/-- A computation that looks up symbols and emits nothing. -/
def ofNames (x : Names α) : Plan ω α := fun t =>
  let (r, t) := x.run t
  ⟨[], r, t⟩

def ofExcept (r : Except Error α) : Plan ω α := fun t => ⟨[], r, t⟩

instance : MonadLift (Except Error) (Plan ω) := ⟨ofExcept⟩

def emit (w : ω) : Plan ω Unit := fun t => ⟨[w], .ok (), t⟩

/-- A plan that is carried out only on a condition. -/
def onlyIf (c : Bool) (x : Plan ω Unit) : Plan ω Unit := if c then x else Plan.pure ()

/-- Emits one thing made of all the steps of a plan. -/
def within (body : Plan Step Unit) (wrap : Script → ω) : Plan ω Unit := fun t =>
  let r := body t
  match r.result with
  | .ok _ => ⟨[wrap r.out], .ok (), r.names⟩
  | .error e => ⟨[wrap (r.out ++ [.fail e])], .error e, r.names⟩

/-! ### Steps -/

def line (template : String) (args : List Arg) : Plan Step Unit := emit (.line template args)

def inline (template : String) (args : List Arg) : Plan Step Unit :=
  emit (.inline template args)

def newline : Plan Step Unit := emit .newline

/-- The empty lines between definitions of a module. -/
def separate : Plan Step Unit := do
  newline
  newline

def docs (text : String) : Plan Step Unit := emit (.docs text)

/-- Documentation, if there is any, and an empty line. -/
def leadingDocs (text : Option String) : Plan Step Unit :=
  match text with
  | some text => do
    docs text
    newline
  | none => Plan.pure ()

/-- Documentation, if there is any. -/
def trailingDocs (text : Option String) : Plan Step Unit :=
  match text with
  | some text => docs text
  | none => Plan.pure ()

/-- A line, and steps one level deeper. -/
def block (template : String) (args : List Arg) (body : Plan Step Unit) : Plan Step Unit :=
  within body (.block template args)

/-- A line whose last argument is code. -/
def lineWith (template : String) (args : List Arg) (body : Plan Step Unit) : Plan Step Unit :=
  within body fun steps => .line template (args ++ [.code steps])

def define (d : Declarator) (name template : String) (args : List Arg) (body : Plan Step Unit) :
    Plan Step Unit :=
  within body (.define d name template args)

def defineLine (d : Declarator) (name template : String) (args : List Arg) : Plan Step Unit :=
  emit (.define d name template args [])

def scope (s : Section) (body : Plan Step Unit) : Plan Step Unit := within body (.scope (some s))

/-- Records what a mention of the symbol needs, and gives its text in the module `here`. -/
def reference (here : String) (s : Symbol) : Plan Step String := do
  emit (.importSymbol s)
  return s.textIn here

/-- The same for a symbol that may be absent, which is `None`. -/
def referenceOrNone (here : String) (s : Option Symbol) : Plan Step String :=
  match s with
  | some s => reference here s
  | none => Plan.pure "None"

/-- Steps that are ready. -/
def script (steps : Script) : Plan Step Unit := fun t => ⟨steps, .ok (), t⟩

/-! ### Edits -/

def editFile (path ns : String) (body : Plan Step Unit) : Plan Edit Unit :=
  within body fun script => { path, ns, script }

/-- An edit of the file that declares a symbol. -/
def edit (s : Symbol) (body : Plan Step Unit) : Plan Edit Unit :=
  match s.file with
  | some path => editFile path s.ns body
  | none => fail (.draft (.undeclared s.fullName))

end Plan

end ClientGen
