import ClientGen.Draft.Script
import ClientGen.Draft.Template

/-!
# Carrying out scripts

`Script.run` carries out a script on a draft. A step that fails ends the script; what was written
before stays.

* `Draft.pushSection` and `Draft.popSection`: run the interceptors of a section.

Interceptors may open sections themselves; how deep they nest is bounded by an argument.
-/

namespace ClientGen

/-- Changes to a draft; the draft is kept when they fail. -/
abbrev DraftM := ExceptT Error (StateM Draft)

namespace Draft

/-- An argument of a template while it is written. A block is written once. -/
inductive Slot where
  | literal (s : String)
  | symbol (s : Symbol)
  | deferred (s : Symbol)
  | block (run : DraftM Unit)
  | spent

/-- The kind of an argument as messages name it. -/
def Slot.word : Slot → String
  | .literal _ => "literal"
  | .symbol _ => "symbol"
  | .deferred _ => "symbol"
  | .block _ => "block"
  | .spent => "block"

/-- Runs an action, then `after` whether or not it failed. -/
def andThen (act : DraftM Unit) (after : Draft → Draft) : DraftM Unit := do
  tryCatch act fun e => do
    modify after
    throw e
  modify after

/-- Drops a line end that was written after the offset `start`. -/
def dropLineEnd (start : Nat) (d : Draft) : Draft :=
  let size := d.text.size
  if start < size && d.text[size - 1]? == some 0x0a then d.truncate (size - 1) else d

/-- Writes a block of code. Its lines after the first stand at the column where it begins, and one
line end at its end is dropped. -/
def runBlock (act : DraftM Unit) : DraftM Unit := do
  let d ← get
  let start := d.text.size
  let before := d.blockIndent
  modify fun d => { d with blockIndent := d.blockIndent + d.column }
  andThen act fun d => { d with blockIndent := before }
  modify fun d => (dropLineEnd start d).resetLine

def putSlot (template : String) (slot : Slot) (format : Format) : DraftM Unit :=
  match slot, format with
  | .block act, .code => runBlock act
  | .spent, _ => throw (.template (.spentBlock template))
  | .literal s, .literal => modify fun d => d.put s
  | .literal s, .string => modify fun d => d.put (Text.quote s)
  | .symbol s, .type => modify fun d => d.mention s
  | .deferred s, .type => modify fun d => d.mentionDeferred s
  | slot, format => throw (.template (.mismatch format slot.word template))

def putNamed (template name : String) (format : Format) : DraftM Unit := do
  match (← get).value? name, format with
  | none, _ => throw (.template (.unknownName name template))
  | some (.literal s), .literal => modify fun d => d.put s
  | some (.literal s), .string => modify fun d => d.put (Text.quote s)
  | some (.symbol s), .type => modify fun d => d.mention s
  | some _, format => throw (.template (.contextMismatch name format))

/-- The slots after one of them has been written. -/
def useSlot (slots : List Slot) (i : Nat) : List Slot :=
  match slots[i]? with
  | some (.block _) => slots.set i .spent
  | _ => slots

/-- Writes tokens; `next` is the number of arguments taken in turn so far. -/
def putTokens (template : String) : Nat → List Slot → List Template.Token → DraftM Unit
  | _, _, [] => pure ()
  | next, slots, .text s :: rest => do
    modify fun d => d.put s
    putTokens template next slots rest
  | next, slots, .dollar :: rest => do
    modify fun d => d.put "$"
    putTokens template next slots rest
  | next, slots, .named name format :: rest => do
    putNamed template name format
    putTokens template next slots rest
  | next, slots, .argument index format :: rest => do
    let (i, next) := match index with
      | .next => (next, next + 1)
      | .position p => (p - 1, next)
    putSlot template (slots.getD i .spent) format
    putTokens template next (useSlot slots i) rest

/-- Writes a template with its arguments. Nothing is written if they do not fit. -/
def expand (template : String) (slots : List Slot) : DraftM Unit :=
  let checked : Except TemplateError (List Template.Token) := do
    let ts ← Template.parse template
    Template.checkArity template ts slots.length
    return ts
  match checked with
  | .ok ts => putTokens template 0 slots ts
  | .error e => throw (.template e)

/-- Carries out the script of an interceptor, given the text that it replaces. -/
abbrev RunScript := String → Script → DraftM Unit

/-- Opens a scope. For a section, what is prepended to it is written first. -/
def pushSection (registry : Registry) (run : RunScript) (place : Option Section) :
    DraftM Unit := do
  modify fun d => d.openScope place
  match place with
  | none => pure ()
  | some s =>
    tryCatch ((registry.scripts s .prepend).forM (run "")) fun e => do
      modify closeScope
      throw e
    modify restartScope

/-- Runs a replacement on the text after the offset `start`, which the text must reach. -/
def replaceFrom (run : RunScript) (start : Nat) (script : Script) : DraftM Unit := do
  let d ← get
  if d.text.size < start then throw (.draft .pastEnd)
  else
    modify fun d => (d.truncate start).resetLine
    run (Text.decodeLossy (d.text.extract start d.text.size)) script

/-- What is done to a section's text when it closes: replacements, then what is appended. -/
def closeSection (registry : Registry) (run : RunScript) : DraftM Unit := do
  match (← get).scopes with
  | { place := some s, start, .. } :: _ =>
    (registry.scripts s .replace).forM (replaceFrom run start)
    (registry.scripts s .append).forM (run "")
  | _ => pure ()

def popSection (registry : Registry) (run : RunScript) : DraftM Unit := do
  if (← get).scopes.isEmpty then throw (.draft .unmatchedPop)
  andThen (closeSection registry run) closeScope

end Draft

namespace Script

open Draft

mutual

/-- Carries out a step; `run` carries out the scripts of interceptors, and `previous` is the text
that the script at hand replaces. -/
def runStep (registry : Registry) (run : RunScript) (previous : String) : Step → DraftM Unit
  | .line template args => do
    expand template (slots registry run previous args)
    modify fun d => d.put "\n"
  | .inline template args => expand template (slots registry run previous args)
  | .newline => modify fun d => d.put "\n"
  | .indent => modify fun d => { d with indent := d.indent + 1 }
  | .dedent => modify fun d => { d with indent := d.indent - 1 }
  | .docs text => modify fun d => d.putDocs text
  | .block template args body => do
    expand template (slots registry run previous args)
    modify fun d => { d.put "\n" with indent := d.indent + 1 }
    andThen (runSteps registry run previous body) fun d => { d with indent := d.indent - 1 }
  | .define declarator name template args body => do
    expand (declarator.lead ++ "$L" ++ template)
      (.literal name :: slots registry run previous args)
    modify fun d => { d.put "\n" with indent := d.indent + 1 }
    andThen (runSteps registry run previous body) fun d => { d with indent := d.indent - 1 }
  | .importSymbol s => modify fun d => d.importSymbol s
  | .importModule module => modify fun d => d.importModule module
  | .dependency dep => modify fun d => d.addDependency dep
  | .put key value => modify fun d => d.putValue key value
  | .push place => pushSection registry run place
  | .pop => popSection registry run
  | .scope place body => do
    pushSection registry run place
    tryCatch (runSteps registry run previous body) fun e => do
      modify closeScope
      throw e
    popSection registry run
  | .fail e => throw e

/-- Carries out steps in turn, up to the first that fails. -/
def runSteps (registry : Registry) (run : RunScript) (previous : String) : List Step → DraftM Unit
  | [] => pure ()
  | step :: rest => do
    runStep registry run previous step
    runSteps registry run previous rest

def slot (registry : Registry) (run : RunScript) (previous : String) : Arg → Slot
  | .literal s => .literal s
  | .symbol s => .symbol s
  | .deferred s => .deferred s
  | .name s => .literal s.name
  | .previous => .literal previous
  | .code body => .block (runSteps registry run previous body)

def slots (registry : Registry) (run : RunScript) (previous : String) : List Arg → List Slot
  | [] => []
  | a :: rest => slot registry run previous a :: slots registry run previous rest

end

/-- Carries out a script; interceptors may nest `depth` deep. -/
def runAt (registry : Registry) : Nat → RunScript
  | 0 => fun _ _ => throw (.draft .tooDeep)
  | depth + 1 => runSteps registry (runAt registry depth)

/-- How deep interceptors may nest. -/
def maxDepth : Nat := 256

def run (registry : Registry) (script : Script) : DraftM Unit :=
  runAt registry maxDepth "" script

end Script

end ClientGen
