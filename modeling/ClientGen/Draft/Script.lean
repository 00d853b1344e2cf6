import ClientGen.Draft.Basic

/-!
# Scripts

What is to be written to a draft, as data: a list of steps, some with steps of their own. Code
generation produces scripts, interceptors hold them, and `Script.run` carries them out.
-/

namespace ClientGen

/-- How a definition starts. -/
inductive Declarator where
  | classDef
  | function
  | asyncFunction
  | typeAlias
  /-- A name that is assigned or annotated. -/
  | value
deriving DecidableEq, Repr

/-- The words before the name. -/
def Declarator.lead : Declarator → String
  | .classDef => "class "
  | .function => "def "
  | .asyncFunction => "async def "
  | .typeAlias => "type "
  | .value => ""

mutual

inductive Step where
  /-- A template, and a line end. -/
  | line (template : String) (args : List Arg)
  /-- A template. -/
  | inline (template : String) (args : List Arg)
  | newline
  | indent
  | dedent
  | docs (text : String)
  /-- A line, and steps one level deeper. -/
  | block (template : String) (args : List Arg) (body : List Step)
  /-- A definition of a name: a line that is the declarator, the name and a template, and steps one
  level deeper. -/
  | define (declarator : Declarator) (name : String) (template : String) (args : List Arg)
      (body : List Step)
  | importSymbol (s : Symbol)
  | importModule (module : String)
  | dependency (d : Dependency)
  | put (key : String) (value : ContextValue)
  /-- Opens a scope that a later step closes. -/
  | push (place : Option Section)
  | pop
  /-- Steps in a scope of their own. -/
  | scope (place : Option Section) (body : List Step)
  | fail (e : Error)

inductive Arg where
  | literal (s : String)
  | symbol (s : Symbol)
  /-- A symbol as a quoted forward reference. -/
  | deferred (s : Symbol)
  /-- The name of a symbol, as the module that declares it has it. -/
  | name (s : Symbol)
  /-- The text that a replacement stands in for. -/
  | previous
  | code (body : List Step)

end

abbrev Script := List Step

instance : Inhabited Step := ⟨.newline⟩

instance : Inhabited Arg := ⟨.previous⟩

instance : Coe String Arg := ⟨.literal⟩

instance : Coe Symbol Arg := ⟨.symbol⟩

/-- A symbol, deferred or not. -/
def Arg.typeRef (s : Symbol) (deferred : Bool) : Arg := if deferred then .deferred s else .symbol s

/-- What an interceptor does to its section. -/
inductive Action where
  | prepend
  | append
  | replace
deriving DecidableEq, Repr

def Action.word : Action → String
  | .prepend => "prepend"
  | .append => "append"
  | .replace => "replace"

/-- A script that extends or replaces a section. -/
structure Interceptor where
  place : Section
  priority : Int := 0
  action : Action
  script : Script

/-- The interceptor as reports show it. -/
def Interceptor.inspect (i : Interceptor) : String :=
  "Interceptor \x7b section: " ++ i.place.inspect ++ ", priority: " ++ toString i.priority ++
    ", action: " ++ Text.inspect i.action.word ++ " \x7d"

/-- Interceptors in the order they were registered. -/
abbrev Registry := List Interceptor

/-- The interceptors of a section, higher priorities first, else in the order of registration. -/
def Registry.forSection (r : Registry) (s : Section) : List Interceptor :=
  (r.filter fun i => i.place == s).mergeSort fun a b => b.priority ≤ a.priority

/-- The scripts that act on a section in a given way, in the order they run. -/
def Registry.scripts (r : Registry) (s : Section) (a : Action) : List Script :=
  ((r.forSection s).filter fun i => i.action == a).map (·.script)

end ClientGen
