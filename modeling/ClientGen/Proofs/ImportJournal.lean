import ClientGen.Proofs.ImportHeader
import ClientGen.Proofs.ScopedState

/-!
# What a run mentions

The journal of a run: the symbols that it writes, as arguments of templates or as values that templates name, those
whose use it announces, and the modules that it asks for, one after the other. A run that fails has a journal too, up to
where it fails. The journal does not look at imports, and follows a run by the drafts that it goes through.

* `Script.run_head_canonical`: **the head of a file has an import for each symbol that is written**, and is determined by
  the set of records.
-/

namespace ClientGen

/-- The name that an import binds. -/
def ImportedName.bound (n : ImportedName) : String := n.localName.getD n.name

/-- Something that asks for imports. -/
inductive Mention where
  | symbol (s : Symbol)
  | module (module : String)

/-- A symbol needs to be imported in a module: it is not a builtin, and declared elsewhere. -/
def Symbol.isImportedIn (s : Symbol) (ns : String) : Bool := !(s.isBuiltin || s.ns == ns)

/-- The record of a symbol that is imported. -/
def Symbol.record (s : Symbol) : ImportRecord := .name s.ns { name := s.name, localName := s.localName }

/-- What a mention in the module `ns` records. -/
def Mention.records (ns : String) : Mention → List ImportRecord
  | symbol s => (s.closure.filter fun c => c.isImportedIn ns).map Symbol.record
  | module m => [.whole m]

/-- What an action mentions, by the draft that it finds. -/
abbrev Journal := Draft → List Mention

namespace Journal

open Draft

/-- Nothing is mentioned. -/
def quiet : Journal := fun _ => []

/-- What an action mentions and, if it succeeds, what follows it. -/
def andThen (log : Journal) (act : DraftM Unit) (rest : Journal) : Journal := fun d =>
  log d ++ match act.run d with
    | (.ok _, d') => rest d'
    | (.error _, _) => []

/-- The journal of one script after the other. -/
def scripts (act : Script → DraftM Unit) (log : Script → Journal) : List Script → Journal
  | [] => quiet
  | script :: rest => (log script).andThen (act script) (scripts act log rest)

/-- A block of code moves the lines in it. -/
def block (log : Journal) : Journal := fun d => log { d with blockIndent := d.blockIndent + d.column }

/-- An argument mentions its symbol, or what its code mentions. -/
def slot (slot : Slot) (code : Journal) : Format → Journal
  | .type => fun _ =>
    match slot with
    | .symbol s => [.symbol s]
    | .deferred s => [.symbol s]
    | _ => []
  | .code =>
    match slot with
    | .block _ => block code
    | _ => quiet
  | _ => quiet

/-- A template that names a value mentions the symbol that it is. -/
def named (name : String) : Format → Journal
  | .type => fun d =>
    match d.value? name with
    | some (.symbol s) => [.symbol s]
    | _ => []
  | _ => quiet

/-- The journal of tokens, where `codes` are the journals of arguments that are code. -/
def tokens (template : String) (codes : List Journal) : Nat → List Slot → List Template.Token → Journal
  | _, _, [] => quiet
  | next, slots, .text s :: rest => fun d => tokens template codes next slots rest (d.put s)
  | next, slots, .dollar :: rest => fun d => tokens template codes next slots rest (d.put "$")
  | next, slots, .named name format :: rest =>
    (named name format).andThen (putNamed template name format) (tokens template codes next slots rest)
  | next, slots, .argument index format :: rest =>
    let (i, next) := match index with
      | .next => (next, next + 1)
      | .position p => (p - 1, next)
    (slot (slots.getD i .spent) (codes.getD i quiet) format).andThen
      (putSlot template (slots.getD i .spent) format) (tokens template codes next (useSlot slots i) rest)

/-- The journal of a template. -/
def expand (template : String) (slots : List Slot) (codes : List Journal) : Journal :=
  let checked : Except TemplateError (List Template.Token) := do
    let ts ← Template.parse template
    Template.checkArity template ts slots.length
    return ts
  match checked with
  | .ok ts => tokens template codes 0 slots ts
  | .error _ => quiet

variable (registry : Registry) (run : RunScript) (log : String → Script → Journal)

/-- Opening a scope mentions what is prepended to its section. -/
def push (place : Option Section) : Journal := fun d =>
  match place with
  | none => []
  | some s => scripts (run "") (log "") (registry.scripts s .prepend) (d.openScope place)

/-- A replacement finds the text without what it replaces. -/
def replace (start : Nat) (script : Script) : Journal := fun d =>
  if d.text.size < start then []
  else log (Text.decodeLossy (d.text.extract start d.text.size)) script (d.truncate start).resetLine

/-- Closing a scope mentions what replaces its section, then what is appended. -/
def pop : Journal := fun d =>
  match d.scopes with
  | { place := some s, start, .. } :: _ =>
    (scripts (replaceFrom run start) (replace log start) (registry.scripts s .replace)).andThen
      ((registry.scripts s .replace).forM (replaceFrom run start))
      (scripts (run "") (log "") (registry.scripts s .append)) d
  | _ => []

end Journal

namespace Script

open Draft

variable (registry : Registry) (run : RunScript) (log : String → Script → Journal)

mutual

/-- The journal of a step; `log` has the journals of what `run` carries out. -/
def stepJournal (previous : String) : Step → Journal
  | .line template args => .expand template (slots registry run previous args) (codeJournals previous args)
  | .inline template args => .expand template (slots registry run previous args) (codeJournals previous args)
  | .block template args body =>
    (Journal.expand template (slots registry run previous args) (codeJournals previous args)).andThen
      (expand template (slots registry run previous args))
      fun d => stepsJournal previous body { d.put "\n" with indent := d.indent + 1 }
  | .define declarator name template args body =>
    (Journal.expand (declarator.lead ++ "$L" ++ template) (.literal name :: slots registry run previous args)
      (.quiet :: codeJournals previous args)).andThen
      (expand (declarator.lead ++ "$L" ++ template) (.literal name :: slots registry run previous args))
      fun d => stepsJournal previous body { d.put "\n" with indent := d.indent + 1 }
  | .importSymbol s => fun _ => [.symbol s]
  | .importModule module => fun _ => [.module module]
  | .push place => .push registry run log place
  | .pop => .pop registry run log
  | .scope place body =>
    (Journal.push registry run log place).andThen (pushSection registry run place)
      ((stepsJournal previous body).andThen (leaving (runSteps registry run previous body)) (.pop registry run log))
  | _ => .quiet

def stepsJournal (previous : String) : List Step → Journal
  | [] => .quiet
  | step :: rest =>
    (stepJournal previous step).andThen (runStep registry run previous step) (stepsJournal previous rest)

/-- The journals of arguments that are code. -/
def codeJournals (previous : String) : List Arg → List Journal
  | [] => []
  | .code body :: rest => stepsJournal previous body :: codeJournals previous rest
  | _ :: rest => .quiet :: codeJournals previous rest

end

/-- The journal of a script whose interceptors may nest `depth` deep. -/
def journalAt (registry : Registry) : Nat → String → Script → Journal
  | 0 => fun _ _ => .quiet
  | depth + 1 => stepsJournal registry (runAt registry depth) (journalAt registry depth)

/-- **The journal of a script.** -/
def journal (registry : Registry) (script : Script) : Journal := journalAt registry maxDepth "" script

end Script

/-! ### What actions leave -/

namespace Draft

/-- The draft `d'` is of the same file as `d`, and imports what that one does and the records. -/
structure Recorded (d : Draft) (records : List ImportRecord) (d' : Draft) : Prop where
  ns : d'.ns = d.ns
  package : d'.package = d.package
  imports : d'.imports = records.foldl Imports.record d.imports

theorem recorded_refl (d : Draft) : Recorded d [] d := ⟨rfl, rfl, rfl⟩

theorem Recorded.trans {d d' d'' : Draft} {records records' : List ImportRecord} (h : Recorded d records d')
    (h' : Recorded d' records' d'') : Recorded d (records ++ records') d'' := by
  refine ⟨h'.ns.trans h.ns, h'.package.trans h.package, ?_⟩
  rw [h'.imports, h.imports, List.foldl_append]

theorem Recorded.still {d d' d'' : Draft} {records : List ImportRecord} (h : Recorded d records d')
    (h' : Recorded d' [] d'') : Recorded d records d'' :=
  ⟨h'.ns.trans h.ns, h'.package.trans h.package, h'.imports.trans h.imports⟩

theorem recorded_put (d : Draft) (s : String) : Recorded d [] (d.put s) := by
  obtain ⟨text, atLineStart, column, h⟩ := put_frame d s
  rw [h]
  exact ⟨rfl, rfl, rfl⟩

theorem recorded_putDocs (d : Draft) (s : String) : Recorded d [] (d.putDocs s) := by
  unfold putDocs
  split
  · exact recorded_refl d
  · exact recorded_put d _

theorem recorded_putValue (d : Draft) (key : String) (value : ContextValue) :
    Recorded d [] (d.putValue key value) := by
  unfold putValue
  split <;> exact ⟨rfl, rfl, rfl⟩

theorem recorded_section {f : Draft → Draft} (h : SectionChange f) (d : Draft) : Recorded d [] (f d) := by
  cases h with
  | openScope place | replace start => exact ⟨rfl, rfl, rfl⟩
  | restartScope =>
    unfold restartScope
    split <;> exact ⟨rfl, rfl, rfl⟩
  | closeScope =>
    unfold closeScope
    split <;> exact ⟨rfl, rfl, rfl⟩

theorem recorded_dependencies (deps : List Dependency) (d : Draft) : Recorded d [] (deps.foldl addDependency d) := by
  induction deps generalizing d with
  | nil => exact recorded_refl d
  | cons dep deps ih =>
    have hfirst : Recorded d [] (d.addDependency dep) := ⟨rfl, rfl, rfl⟩
    exact hfirst.still (ih _)

theorem recorded_importOne (d : Draft) (s : Symbol) :
    Recorded d (if s.isImportedIn d.ns then [s.record] else []) (d.importOne s) := by
  have hdeps := recorded_dependencies s.dependencies d
  unfold importOne Symbol.isImportedIn
  dsimp only
  rw [hdeps.ns]
  cases s.isBuiltin || s.ns == d.ns with
  | true => exact hdeps
  | false => exact hdeps.trans ⟨hdeps.ns.symm, rfl, rfl⟩

/-- A mention of a symbol records the symbols of its closure that are declared elsewhere. -/
theorem recorded_importSymbol (d : Draft) (s : Symbol) :
    Recorded d (Mention.records d.ns (.symbol s)) (d.importSymbol s) := by
  change Recorded d ((s.closure.filter fun c => c.isImportedIn d.ns).map Symbol.record) (s.closure.foldl importOne d)
  induction s.closure generalizing d with
  | nil => exact recorded_refl d
  | cons c rest ih =>
    have hfirst := recorded_importOne d c
    have hrest := ih (d.importOne c)
    rw [hfirst.ns] at hrest
    rw [List.filter_cons]
    cases hforeign : c.isImportedIn d.ns with
    | true | false =>
      rw [hforeign] at hfirst
      exact hfirst.trans hrest

/-- However the action ends, it records what the journal mentions and nothing else. -/
def Journaled (act : DraftM Unit) (log : Journal) : Prop :=
  ∀ d, Recorded d ((log d).flatMap (Mention.records d.ns)) (act.run d).2

variable {act : DraftM Unit} {log : Journal}

theorem journaled_modify {f : Draft → Draft} (h : ∀ d, Recorded d [] (f d)) : Journaled (modify f) .quiet := h

theorem journaled_throw (e : Error) : Journaled (throw e) .quiet := recorded_refl

theorem journaled_written (s : Symbol) (text : Draft → String) :
    Journaled (modify fun d => (d.importSymbol s).put (text d)) fun _ => [.symbol s] := by
  intro d
  rw [List.flatMap_singleton]
  exact (recorded_importSymbol d s).still (recorded_put _ _)

namespace Journaled

theorem seq {rest : DraftM Unit} {restLog : Journal} (h : Journaled act log) (hrest : Journaled rest restLog) :
    Journaled (act >>= fun _ => rest) (log.andThen act restLog) := by
  intro d
  have hact := h d
  rw [run_bind, Journal.andThen, List.flatMap_append]
  cases hr : act.run d with
  | mk r d' =>
    rw [hr] at hact
    cases r with
    | error e => exact hact.trans (recorded_refl d')
    | ok _ =>
      have hafter := hrest d'
      rw [hact.ns] at hafter
      exact hact.trans hafter

theorem after {f : Draft → Draft} (h : Journaled act log) (hf : ∀ d, Recorded d [] (f d)) :
    Journaled (Draft.andThen act f) log := by
  intro d
  rw [run_andThen]
  exact (h d).still (hf _)

theorem leaving (h : Journaled act log) : Journaled (Draft.leaving act) log := by
  intro d
  have hact := h d
  unfold Draft.leaving
  rw [run_tryCatch]
  cases hr : act.run d with
  | mk r d' =>
    rw [hr] at hact
    cases r with
    | ok _ => exact hact
    | error e => exact hact.still (recorded_section .closeScope d')

theorem block (h : Journaled act log) : Journaled (runBlock act) log.block := by
  intro d
  -- the block leaves what its code left, but for the indentation and a line end
  obtain ⟨left, heq, hleft⟩ := runBlock_leaves act d
  have hact := h { d with blockIndent := d.blockIndent + d.column }
  have hrecorded : Recorded d ((log.block d).flatMap (Mention.records d.ns)) left := by
    rw [heq]
    exact ⟨hact.ns, hact.package, hact.imports⟩
  rcases hleft with hleft | hleft
  · rw [hleft]
    exact hrecorded
  · obtain ⟨text, hframe⟩ := dropLineEnd_frame d.text.size left
    rw [hleft, hframe]
    exact ⟨hrecorded.ns, hrecorded.package, hrecorded.imports⟩

theorem finish {f : Draft → Draft} (h : Journaled act log) (hf : ∀ d, Recorded d [] (f d)) :
    Journaled (act >>= fun _ => modify f) log := by
  intro d
  have hact := h d
  rw [run_bind]
  cases hr : act.run d with
  | mk r d' =>
    rw [hr] at hact
    cases r with
    | error e => exact hact
    | ok _ => exact hact.still (hf d')

theorem change {f : Draft → Draft} (h : Journaled act log) (hf : ∀ d, Recorded d [] (f d)) :
    Journaled (modify f >>= fun _ => act) fun d => log (f d) := by
  intro d
  have hact := h (f d)
  rw [(hf d).ns] at hact
  exact (hf d).trans hact

theorem read {f : Draft → DraftM Unit} (h : ∀ d, ∃ found : Journal, found d = log d ∧ Journaled (f d) found) :
    Journaled (get >>= f) log := by
  intro d
  obtain ⟨found, heq, hfound⟩ := h d
  rw [← heq]
  exact hfound d

theorem forM {act : Script → DraftM Unit} {log : Script → Journal} (h : ∀ script, Journaled (act script) (log script))
    (scripts : List Script) : Journaled (scripts.forM act) (.scripts act log scripts) := by
  induction scripts with
  | nil => exact recorded_refl
  | cons script rest ih => exact (h script).seq ih

end Journaled

/-- An argument that is code has a journal. -/
def Covered (slots : List Slot) (codes : List Journal) : Prop :=
  ∀ i act, slots[i]? = some (.block act) → Journaled act (codes.getD i .quiet)

theorem Covered.cons {slot : Slot} {slots : List Slot} {code : Journal} {codes : List Journal}
    (h : Covered slots codes) (hslot : ∀ act, slot = .block act → Journaled act code) :
    Covered (slot :: slots) (code :: codes) := by
  intro i act hact
  cases i with
  | zero => exact hslot act (Option.some.inj hact)
  | succ i => exact h i act hact

theorem Covered.useSlot {slots : List Slot} {codes : List Journal} (h : Covered slots codes) (i : Nat) :
    Covered (useSlot slots i) codes := by
  unfold Draft.useSlot
  split
  · intro j act hact
    rw [List.getElem?_set] at hact
    split at hact
    · split at hact <;> cases hact
    · exact h j act hact
  · exact h

theorem journaled_putSlot (template : String) {slot : Slot} {code : Journal}
    (h : ∀ act, slot = .block act → Journaled act code) (format : Format) :
    Journaled (putSlot template slot format) (.slot slot code format) := by
  cases slot with
  | block act =>
    cases format with
    | code => exact (h act rfl).block
    | _ => exact journaled_throw _
  | symbol s =>
    cases format with
    | type => exact journaled_written s fun d => s.textIn d.ns
    | _ => exact journaled_throw _
  | deferred s =>
    cases format with
    | type => exact journaled_written s fun d => "\"" ++ s.textIn d.ns ++ "\""
    | _ => exact journaled_throw _
  | literal s =>
    cases format with
    | literal | string => exact journaled_modify fun d => recorded_put d _
    | _ => exact journaled_throw _
  | spent => cases format <;> exact journaled_throw _

theorem journaled_putNamed (template name : String) (format : Format) :
    Journaled (putNamed template name format) (.named name format) := by
  refine Journaled.read fun d => ?_
  cases hvalue : d.value? name with
  | none => exact ⟨.quiet, by cases format <;> simp [Journal.named, Journal.quiet, hvalue], journaled_throw _⟩
  | some value =>
    cases value with
    | literal s =>
      refine ⟨.quiet, by cases format <;> simp [Journal.named, Journal.quiet, hvalue], ?_⟩
      cases format with
      | literal | string => exact journaled_modify fun d => recorded_put d _
      | _ => exact journaled_throw _
    | symbol s =>
      cases format with
      | type =>
        refine ⟨fun _ => [.symbol s], ?_, journaled_written s fun d => s.textIn d.ns⟩
        simp [Journal.named, hvalue]
      | _ => exact ⟨.quiet, rfl, journaled_throw _⟩

theorem journaled_putTokens (template : String) (codes : List Journal) (tokens : List Template.Token) :
    ∀ (next : Nat) (slots : List Slot), Covered slots codes →
      Journaled (putTokens template next slots tokens) (.tokens template codes next slots tokens) := by
  induction tokens with
  | nil => exact fun _ _ _ => recorded_refl
  | cons token rest ih =>
    intro next slots hslots
    cases token with
    | text s => exact (ih next slots hslots).change fun d => recorded_put d s
    | dollar => exact (ih next slots hslots).change fun d => recorded_put d "$"
    | named name format => exact (journaled_putNamed template name format).seq (ih next slots hslots)
    | argument index format =>
      have hslot : ∀ i act, slots.getD i .spent = .block act → Journaled act (codes.getD i .quiet) := by
        intro i act hact
        refine hslots i act ?_
        rw [List.getD_eq_getElem?_getD] at hact
        cases hget : slots[i]? with
        | none =>
          rw [hget] at hact
          cases hact
        | some slot =>
          rw [hget] at hact
          exact congrArg some hact
      exact (journaled_putSlot template (hslot _) format).seq (ih _ _ (hslots.useSlot _))

theorem journaled_expand (template : String) {slots : List Slot} {codes : List Journal} (h : Covered slots codes) :
    Journaled (expand template slots) (.expand template slots codes) := by
  unfold Draft.expand Journal.expand
  dsimp only
  generalize (do
    let ts ← Template.parse template
    Template.checkArity template ts slots.length
    return ts : Except TemplateError (List Template.Token)) = checked
  cases checked with
  | ok ts => exact journaled_putTokens template codes ts 0 slots h
  | error e => exact journaled_throw _

section Sections

variable {registry : Registry} {run : RunScript} {log : String → Script → Journal}
  (hrun : ∀ previous script, Journaled (run previous script) (log previous script))

include hrun

theorem journaled_pushSection (place : Option Section) :
    Journaled (pushSection registry run place) (.push registry run log place) := by
  cases place with
  | none =>
    have hdone : Journaled (pure ()) .quiet := recorded_refl
    exact hdone.change (recorded_section (.openScope none))
  | some s =>
    have hscripts := (Journaled.forM (hrun "") (registry.scripts s .prepend)).leaving
    exact (hscripts.finish (recorded_section .restartScope)).change (recorded_section (.openScope (some s)))

theorem journaled_replaceFrom (start : Nat) (script : Script) :
    Journaled (replaceFrom run start script) (.replace log start script) := by
  refine Journaled.read fun d => ?_
  split
  · rename_i hpast
    exact ⟨.quiet, (if_pos hpast).symm, journaled_throw _⟩
  · rename_i hreached
    exact ⟨_, (if_neg hreached).symm, (hrun _ script).change (recorded_section (.replace start))⟩

theorem journaled_closeSection : Journaled (closeSection registry run) (.pop registry run log) := by
  refine Journaled.read fun d => ?_
  cases hscopes : d.scopes with
  | nil => exact ⟨.quiet, by rw [Journal.pop, hscopes]; rfl, recorded_refl⟩
  | cons top rest =>
    obtain ⟨values, place, start, indent, blockIndent⟩ := top
    cases place with
    | none => exact ⟨.quiet, by rw [Journal.pop, hscopes]; rfl, recorded_refl⟩
    | some s =>
      have hreplace := Journaled.forM (journaled_replaceFrom hrun start) (registry.scripts s .replace)
      have happend := Journaled.forM (hrun "") (registry.scripts s .append)
      exact ⟨_, by rw [Journal.pop, hscopes], hreplace.seq happend⟩

theorem journaled_popSection : Journaled (popSection registry run) (.pop registry run log) := by
  refine Journaled.read fun d => ?_
  split
  · rename_i hnone
    refine ⟨.quiet, ?_, recorded_refl⟩
    rw [Journal.pop, List.isEmpty_iff.1 hnone]
    rfl
  · exact ⟨_, rfl, (journaled_closeSection hrun).after (recorded_section .closeScope)⟩

end Sections

end Draft

open Draft

namespace Script

variable {registry : Registry} {run : RunScript} {log : String → Script → Journal}

mutual

theorem journaled_step (hrun : ∀ previous script, Journaled (run previous script) (log previous script))
    (previous : String) : ∀ step : Step,
      Journaled (runStep registry run previous step) (stepJournal registry run log previous step)
  | .line template args =>
    (journaled_expand template (covered_slots hrun previous args)).finish fun d => recorded_put d "\n"
  | .inline template args => journaled_expand template (covered_slots hrun previous args)
  | .newline => journaled_modify fun d => recorded_put d "\n"
  | .indent | .dedent => journaled_modify fun _ => ⟨rfl, rfl, rfl⟩
  | .docs text => journaled_modify fun d => recorded_putDocs d text
  | .block template args body => by
    have hbody := (journaled_steps hrun previous body).after
      (f := fun d => { d with indent := d.indent - 1 }) fun _ => ⟨rfl, rfl, rfl⟩
    refine (journaled_expand template (covered_slots hrun previous args)).seq (hbody.change fun d => ?_)
    exact (recorded_put d "\n").trans ⟨rfl, rfl, rfl⟩
  | .define declarator name template args body => by
    -- as for a block, with the name as one more argument
    have hbody := (journaled_steps hrun previous body).after
      (f := fun d => { d with indent := d.indent - 1 }) fun _ => ⟨rfl, rfl, rfl⟩
    have hslots : Covered (.literal name :: slots registry run previous args)
        (.quiet :: codeJournals registry run log previous args) :=
      (covered_slots hrun previous args).cons fun act hact => by cases hact
    refine (journaled_expand _ hslots).seq (hbody.change fun d => ?_)
    exact (recorded_put d "\n").trans ⟨rfl, rfl, rfl⟩
  | .importSymbol s => fun d => by
    rw [stepJournal, List.flatMap_singleton]
    exact recorded_importSymbol d s
  | .importModule module => fun d => ⟨rfl, rfl, rfl⟩
  | .dependency dep => journaled_modify fun _ => ⟨rfl, rfl, rfl⟩
  | .put key value => journaled_modify fun d => recorded_putValue d key value
  | .push place => journaled_pushSection hrun place
  | .pop => journaled_popSection hrun
  | .scope place body =>
    (journaled_pushSection hrun place).seq
      ((journaled_steps hrun previous body).leaving.seq (journaled_popSection hrun))
  | .fail e => journaled_throw e

theorem journaled_steps (hrun : ∀ previous script, Journaled (run previous script) (log previous script))
    (previous : String) : ∀ steps : List Step,
      Journaled (runSteps registry run previous steps) (stepsJournal registry run log previous steps)
  | [] => recorded_refl
  | step :: rest => (journaled_step hrun previous step).seq (journaled_steps hrun previous rest)

theorem covered_slots (hrun : ∀ previous script, Journaled (run previous script) (log previous script))
    (previous : String) : ∀ args : List Arg,
      Covered (slots registry run previous args) (codeJournals registry run log previous args)
  | [] => fun i act h => by cases h
  | .code body :: rest => by
    refine (covered_slots hrun previous rest).cons fun act hact => ?_
    cases hact
    exact journaled_steps hrun previous body
  | .literal _ :: rest | .symbol _ :: rest | .deferred _ :: rest | .name _ :: rest | .previous :: rest =>
    (covered_slots hrun previous rest).cons fun act hact => by cases hact

end

theorem journaled_runAt (registry : Registry) (depth : Nat) : ∀ (previous : String) (script : Script),
    Journaled (runAt registry depth previous script) (journalAt registry depth previous script) := by
  induction depth with
  | zero => exact fun _ _ => journaled_throw _
  | succ depth ih => exact journaled_steps ih

/-- **A script records what its journal mentions and nothing else**, however it ends. -/
theorem run_journaled (registry : Registry) (script : Script) :
    Journaled (Script.run registry script) (journal registry script) :=
  journaled_runAt registry maxDepth "" script

/-! ### The head of a file that is written by a script -/

/-- The file that a script writes records what the script mentions, in order. -/
theorem run_records (registry : Registry) (script : Script) (ns package : String) :
    ((Script.run registry script).run { ns, package }).2.imports.Ordered ∧
      ∀ r, r ∈ ((Script.run registry script).run { ns, package }).2.imports.records ↔
        r ∈ (journal registry script { ns, package }).flatMap (Mention.records ns) := by
  have hrun := run_journaled registry script { ns, package }
  obtain ⟨hordered, hrecords⟩ := Imports.ordered_empty.recordAll
    ((journal registry script { ns, package }).flatMap (Mention.records ns))
  rw [hrun.imports]
  refine ⟨hordered, fun r => (hrecords r).trans ?_⟩
  exact or_iff_left List.not_mem_nil

theorem bound_of_heads {package ns : String} {mentions : List Mention}
    {head : List (Imports.Group × List ImportStatement)}
    (h : Imports.Heads package (mentions.flatMap (Mention.records ns)) head) {s c : Symbol} (hs : .symbol s ∈ mentions)
    (hc : c ∈ s.closure) (hbuiltin : c.isBuiltin = false) (hns : c.ns ≠ ns) :
    ∃ block ∈ head, ∃ names, .names c.ns names ∈ block.2 ∧
      ∃ n ∈ names, n.name = c.name ∧ n.bound = c.importedName ∧ n.bound = c.textIn ns := by
  have hforeign : c.isImportedIn ns = true := by simp [Symbol.isImportedIn, hbuiltin, hns]
  have hrecord : c.record ∈ mentions.flatMap (Mention.records ns) :=
    List.mem_flatMap.2 ⟨_, hs, List.mem_map_of_mem (List.mem_filter.2 ⟨hc, hforeign⟩)⟩
  obtain ⟨block, hblock, hinside⟩ := List.mem_flatMap.1 ((h.complete _).2 hrecord)
  obtain ⟨statement, hstatement, hlisted⟩ := List.mem_flatMap.1 hinside
  cases statement with
  | whole module => cases List.mem_singleton.1 hlisted
  | names module names =>
    obtain ⟨n, hn, heq⟩ := List.mem_map.1 hlisted
    cases heq
    refine ⟨block, hblock, names, hstatement, _, hn, rfl, rfl, ?_⟩
    rw [Symbol.textIn, if_neg (by simpa using hns)]
    rfl

/-- **The head of a file.** A script on a new draft, however it ends:
1. The file begins with the head, and what follows does not depend on the imports.
2. Each symbol that is written, and each that it refers to, is imported if it is declared elsewhere, and is bound to the
   text that is written for it.
3. The head has each record once, and each statement in the group of its module.
4. It is the same for any two scripts that record the same, in whatever order and however often. -/
theorem run_head_canonical (registry : Registry) (script : Script) (ns package : String) :
    let d := ((Script.run registry script).run { ns, package }).2
    let mentions := journal registry script { ns, package }
    let head := d.imports.layout package
    d.render = marker ++ "\n" ++ Imports.headText head ++ d.trimmed ∧
    (∀ s, .symbol s ∈ mentions → ∀ c ∈ s.closure, c.isBuiltin = false → c.ns ≠ ns →
      ∃ block ∈ head, ∃ names, .names c.ns names ∈ block.2 ∧
        ∃ n ∈ names, n.name = c.name ∧ n.bound = c.importedName ∧ n.bound = c.textIn ns) ∧
    Imports.Heads package (mentions.flatMap (Mention.records ns)) head ∧
    ∀ registry' script' ns',
      (∀ r, r ∈ (journal registry' script' { ns := ns', package }).flatMap (Mention.records ns') ↔
        r ∈ mentions.flatMap (Mention.records ns)) →
      ((Script.run registry' script').run { ns := ns', package }).2.imports.layout package = head := by
  obtain ⟨hordered, hrecords⟩ := run_records registry script ns package
  have hheads := (hordered.heads package).congr hrecords
  refine ⟨?_, fun s hs c hc => bound_of_heads hheads hs hc, hheads, fun registry' script' ns' hsame => ?_⟩
  · have hpackage := (run_journaled registry script { ns, package }).package
    rw [render_eq, hpackage]
  · obtain ⟨hordered', hrecords'⟩ := run_records registry' script' ns' package
    rw [hordered'.ext hordered fun r => (hrecords' r).trans ((hsame r).trans (hrecords r).symm)]

/-- A mention with an alias, a forward reference in the same module, and a symbol that is made of another one. -/
example :
    let order : Symbol := { name := "Order", ns := "shop.models" }
    let schema : Symbol := { name := "ORDER", ns := "shop.schemas", localName := some "SCHEMA_ORDER" }
    let list : Symbol :=
      { name := "list[datetime]", ns := "", references := [{ name := "datetime", ns := "datetime" }] }
    let script : Script := [.line "a: $T = $T" [.symbol order, .symbol schema], .put "kind" (.symbol list),
      .line "b: $\x7bkind:T\x7d" [], .line "c: $T" [.deferred order]]
    (((Script.run [] script).run { ns := "shop.models", package := "shop" }).2).imports.text "shop" =
      "from datetime import datetime\n\nfrom shop.schemas import ORDER as SCHEMA_ORDER" := by
  decide +kernel

end Script

end ClientGen
