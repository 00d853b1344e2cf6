import ClientGen.Draft.Run
import ClientGen.Proofs.Triple

/-!
# Induction over scripts

A script is carried out by composing a few changes to a draft. What is shared by these changes and kept by
the ways of composing them is shared by all scripts, up to what sections and failing steps bring in.

* `Script.runSteps_closed`: a closed property holds of a script if it does of the scopes, the sections and the
  failures among its parts, and if these mention such symbols.
-/

namespace ClientGen

mutual

/-- The step itself, and the steps of its arguments and of its body. -/
def Step.parts : Step → List Step
  | .line template args => .line template args :: Arg.partsAll args
  | .inline template args => .inline template args :: Arg.partsAll args
  | .block template args body => .block template args body :: (Arg.partsAll args ++ Step.partsAll body)
  | .define declarator name template args body =>
    .define declarator name template args body :: (Arg.partsAll args ++ Step.partsAll body)
  | .scope place body => .scope place body :: Step.partsAll body
  | step => [step]

def Step.partsAll : List Step → List Step
  | [] => []
  | step :: rest => Step.parts step ++ Step.partsAll rest

def Arg.parts : Arg → List Step
  | .code body => Step.partsAll body
  | _ => []

def Arg.partsAll : List Arg → List Step
  | [] => []
  | arg :: rest => Arg.parts arg ++ Arg.partsAll rest

end

/-- No condition on symbols. -/
abbrev Symbol.Any : Symbol → Prop := fun _ => True

/-- The symbol that the argument writes satisfies `S`. -/
def Arg.Names (S : Symbol → Prop) : Arg → Prop
  | .symbol s | .deferred s => S s
  | _ => True

/-- The symbols that the step itself mentions, and not one of its parts, satisfy `S`. -/
def Step.Names (S : Symbol → Prop) : Step → Prop
  | .line _ args | .inline _ args | .block _ args _ | .define _ _ _ args _ => ∀ arg ∈ args, arg.Names S
  | .importSymbol s => S s
  | .put _ value => ∀ s, value = .symbol s → S s
  | _ => True

theorem Arg.Names.mono {S S' : Symbol → Prop} (h : ∀ s, S s → S' s) {arg : Arg} (hnames : arg.Names S) :
    arg.Names S' := by
  cases arg with
  | symbol s | deferred s => exact h s hnames
  | _ => trivial

theorem Step.Names.mono {S S' : Symbol → Prop} (h : ∀ s, S s → S' s) {step : Step} (hnames : step.Names S) :
    step.Names S' := by
  cases step with
  | line _ args | inline _ args | block _ args _ | define _ _ _ args _ =>
    exact fun arg harg => Arg.Names.mono h (hnames arg harg)
  | importSymbol s => exact h s hnames
  | put key value => exact fun s hs => h s (hnames s hs)
  | _ => trivial

theorem Step.names_any (step : Step) : step.Names Symbol.Any := by
  have hargs : ∀ args : List Arg, ∀ arg ∈ args, arg.Names Symbol.Any := by
    intro args arg _
    cases arg <;> trivial
  cases step with
  | line _ args | inline _ args | block _ args _ | define _ _ _ args _ => exact hargs args
  | put key value => exact fun _ _ => trivial
  | _ => trivial

namespace Draft

/-- The symbols that templates may name satisfy `S`. -/
def Offers (S : Symbol → Prop) (d : Draft) : Prop := ∀ name s, d.value? name = some (.symbol s) → S s

/-- The changes that steps make one at a time, if the symbols that they mention satisfy `S`. -/
inductive Change (S : Symbol → Prop) : (Draft → Draft) → Prop where
  | put (s : String) : Change S fun d => d.put s
  | docs (s : String) : Change S fun d => d.putDocs s
  | mention {s : Symbol} (h : S s) : Change S fun d => d.mention s
  | mentionDeferred {s : Symbol} (h : S s) : Change S fun d => d.mentionDeferred s
  | importSymbol {s : Symbol} (h : S s) : Change S fun d => d.importSymbol s
  | importModule (module : String) : Change S fun d => d.importModule module
  | dependency (dep : Dependency) : Change S fun d => d.addDependency dep
  | putValue (key : String) {value : ContextValue} (h : ∀ s, value = .symbol s → S s) :
    Change S fun d => d.putValue key value
  | indent : Change S fun d => { d with indent := d.indent + 1 }
  | dedent : Change S fun d => { d with indent := d.indent - 1 }
  /-- The end of the line that begins a block. -/
  | enter : Change S fun d => { d.put "\n" with indent := d.indent + 1 }

/-- The changes that opening and closing scopes makes. -/
inductive SectionChange : (Draft → Draft) → Prop where
  | openScope (place : Option Section) : SectionChange fun d => d.openScope place
  | restartScope : SectionChange restartScope
  | closeScope : SectionChange closeScope
  | replace (start : Nat) : SectionChange fun d => (d.truncate start).resetLine

/-- Closes the scope if the action fails in it. -/
def leaving (act : DraftM Unit) : DraftM Unit :=
  tryCatch act fun e => do
    modify closeScope
    throw e

/-- Carries out an action in a scope of its own. -/
def inScope (registry : Registry) (run : RunScript) (place : Option Section) (act : DraftM Unit) : DraftM Unit := do
  pushSection registry run place
  leaving act
  popSection registry run

theorem mem_scripts {registry : Registry} {place : Section} {action : Action} {script : Script}
    (h : script ∈ registry.scripts place action) : ∃ i ∈ registry, i.script = script := by
  obtain ⟨i, hi, rfl⟩ := List.mem_map.1 h
  have hsorted := (List.mem_filter.1 hi).1
  have hfound := (List.mergeSort_perm _ fun a b : Interceptor => b.priority ≤ a.priority).mem_iff.1 hsorted
  exact ⟨i, (List.mem_filter.1 hfound).1, rfl⟩

/-- A block has the property, and a symbol satisfies `S`. -/
def Slot.Fits (S : Symbol → Prop) (P : DraftM Unit → Prop) : Slot → Prop
  | .block act => P act
  | .symbol s | .deferred s => S s
  | _ => True

end Draft

open Draft

namespace Script

/-- A property that composing steps keeps, if the symbols that they mention satisfy `S`. -/
structure Closed (S : Symbol → Prop) (P : DraftM Unit → Prop) : Prop where
  done : P (pure ())
  seq : ∀ {x y : DraftM Unit}, P x → P y → P (x >>= fun _ => y)
  read : ∀ {f : Draft → DraftM Unit}, (∀ d, d.Offers S → P (f d)) → P (get >>= f)
  change : ∀ {f : Draft → Draft}, Change S f → P (modify f)
  raise : ∀ e, P (throw (.template e))
  leave : ∀ {act : DraftM Unit}, P act → P (andThen act fun d => { d with indent := d.indent - 1 })
  block : ∀ {act : DraftM Unit}, P act → P (runBlock act)

variable {S : Symbol → Prop} {P : DraftM Unit → Prop} (closed : Closed S P)

include closed

namespace Closed

theorem putSlot (template : String) {slot : Slot} (h : slot.Fits S P) (format : Format) :
    P (Draft.putSlot template slot format) := by
  unfold Draft.putSlot
  split
  · exact closed.block h
  · exact closed.raise _
  · exact closed.change (.put _)
  · exact closed.change (.put _)
  · exact closed.change (.mention h)
  · exact closed.change (.mentionDeferred h)
  · exact closed.raise _

theorem putNamed (template name : String) (format : Format) : P (Draft.putNamed template name format) := by
  refine closed.read fun d hd => ?_
  split
  · exact closed.raise _
  · exact closed.change (.put _)
  · exact closed.change (.put _)
  · rename_i hvalue
    exact closed.change (.mention (hd name _ hvalue))
  · exact closed.raise _

omit closed in
theorem useSlot {slots : List Slot} (h : ∀ slot ∈ slots, slot.Fits S P) (i : Nat) :
    ∀ slot ∈ Draft.useSlot slots i, slot.Fits S P := by
  unfold Draft.useSlot
  split
  · intro slot hslot
    rcases List.mem_or_eq_of_mem_set hslot with hslot | rfl
    · exact h slot hslot
    · trivial
  · exact h

theorem putTokens (template : String) (tokens : List Template.Token) : ∀ (next : Nat) (slots : List Slot),
    (∀ slot ∈ slots, slot.Fits S P) → P (Draft.putTokens template next slots tokens) := by
  induction tokens with
  | nil => exact fun _ _ _ => closed.done
  | cons token rest ih =>
    intro next slots hslots
    cases token with
    | text s => exact closed.seq (closed.change (.put s)) (ih next slots hslots)
    | dollar => exact closed.seq (closed.change (.put "$")) (ih next slots hslots)
    | named name format => exact closed.seq (closed.putNamed template name format) (ih next slots hslots)
    | argument index format =>
      have hslot : ∀ i, (slots.getD i .spent).Fits S P := by
        intro i
        rw [List.getD_eq_getElem?_getD]
        cases hget : slots[i]? with
        | none => trivial
        | some s => exact hslots s (List.mem_of_getElem? hget)
      exact closed.seq (closed.putSlot template (hslot _) format) (ih _ _ (useSlot hslots _))

theorem expand (template : String) {slots : List Slot} (h : ∀ slot ∈ slots, slot.Fits S P) :
    P (Draft.expand template slots) := by
  unfold Draft.expand
  dsimp only
  split
  · exact closed.putTokens template _ 0 slots h
  · exact closed.raise _

end Closed

end Script

/-- The property holds of what a step does apart from its parts: of the scope it opens or closes, of its
failure, or of the scope around what has the property. -/
def Step.Upholds (P : DraftM Unit → Prop) (registry : Registry) (run : RunScript) : Step → Prop
  | .push place => P (pushSection registry run place)
  | .pop => P (popSection registry run)
  | .scope place _ => ∀ act, P act → P (inScope registry run place act)
  | .fail e => P (throw e)
  | _ => True

/-- The same, and what the step mentions itself satisfies `S`. -/
structure Step.Lawful (S : Symbol → Prop) (P : DraftM Unit → Prop) (registry : Registry) (run : RunScript)
    (step : Step) : Prop where
  names : step.Names S
  upholds : step.Upholds P registry run

namespace Script

variable {S : Symbol → Prop} {P : DraftM Unit → Prop} {registry : Registry} {run : RunScript}

mutual

theorem runStep_closed (closed : Closed S P) (previous : String) : ∀ step : Step,
    (∀ part ∈ step.parts, part.Lawful S P registry run) → P (runStep registry run previous step)
  | .line template args, h => by
    have hslots := slots_closed closed previous args (h _ List.mem_cons_self).names fun p hp =>
      h p (List.mem_cons_of_mem _ hp)
    exact closed.seq (closed.expand template hslots) (closed.change (.put "\n"))
  | .inline template args, h =>
    closed.expand template (slots_closed closed previous args (h _ List.mem_cons_self).names fun p hp =>
      h p (List.mem_cons_of_mem _ hp))
  | .newline, _ => closed.change (.put "\n")
  | .indent, _ => closed.change .indent
  | .dedent, _ => closed.change .dedent
  | .docs text, _ => closed.change (.docs text)
  | .block template args body, h => by
    have hslots := slots_closed closed previous args (h _ List.mem_cons_self).names fun p hp =>
      h p (List.mem_cons_of_mem _ (List.mem_append_left _ hp))
    have hbody := runSteps_closed closed previous body fun p hp =>
      h p (List.mem_cons_of_mem _ (List.mem_append_right _ hp))
    exact closed.seq (closed.expand template hslots) (closed.seq (closed.change .enter) (closed.leave hbody))
  | .define declarator name template args body, h => by
    have hslots := slots_closed closed previous args (h _ List.mem_cons_self).names fun p hp =>
      h p (List.mem_cons_of_mem _ (List.mem_append_left _ hp))
    have hbody := runSteps_closed closed previous body fun p hp =>
      h p (List.mem_cons_of_mem _ (List.mem_append_right _ hp))
    refine closed.seq (closed.expand _ ?_) (closed.seq (closed.change .enter) (closed.leave hbody))
    intro slot hslot
    rcases List.mem_cons.1 hslot with rfl | hslot
    · trivial
    · exact hslots slot hslot
  | .importSymbol s, h => closed.change (.importSymbol (h (.importSymbol s) List.mem_cons_self).names)
  | .importModule module, _ => closed.change (.importModule module)
  | .dependency dep, _ => closed.change (.dependency dep)
  | .put key value, h => closed.change (.putValue key (h (.put key value) List.mem_cons_self).names)
  | .push place, h => (h (.push place) List.mem_cons_self).upholds
  | .pop, h => (h .pop List.mem_cons_self).upholds
  | .scope place body, h =>
    (h (.scope place body) List.mem_cons_self).upholds _
      (runSteps_closed closed previous body fun p hp => h p (List.mem_cons_of_mem _ hp))
  | .fail e, h => (h (.fail e) List.mem_cons_self).upholds

/-- **A closed property holds of a script** if it does of what its parts do apart from their own parts, and they
mention symbols of the kind. -/
theorem runSteps_closed (closed : Closed S P) (previous : String) : ∀ steps : List Step,
    (∀ part ∈ Step.partsAll steps, part.Lawful S P registry run) → P (runSteps registry run previous steps)
  | [], _ => closed.done
  | step :: rest, h =>
    closed.seq (runStep_closed closed previous step fun p hp => h p (List.mem_append_left _ hp))
      (runSteps_closed closed previous rest fun p hp => h p (List.mem_append_right _ hp))

theorem slot_closed (closed : Closed S P) (previous : String) : ∀ arg : Arg, arg.Names S →
    (∀ part ∈ arg.parts, part.Lawful S P registry run) → (slot registry run previous arg).Fits S P
  | .code body, _, h => runSteps_closed closed previous body h
  | .symbol _, hnames, _ | .deferred _, hnames, _ => hnames
  | .literal _, _, _ | .name _, _, _ | .previous, _, _ => trivial

theorem slots_closed (closed : Closed S P) (previous : String) : ∀ args : List Arg, (∀ arg ∈ args, arg.Names S) →
    (∀ part ∈ Arg.partsAll args, part.Lawful S P registry run) →
    ∀ slot ∈ slots registry run previous args, slot.Fits S P
  | [], _, _ => fun _ hslot => by cases hslot
  | arg :: rest, hnames, h => by
    intro slot hslot
    rcases List.mem_cons.1 hslot with rfl | hslot
    · exact slot_closed closed previous arg (hnames arg List.mem_cons_self) fun p hp => h p (List.mem_append_left _ hp)
    · exact slots_closed closed previous rest (fun a ha => hnames a (List.mem_cons_of_mem _ ha))
        (fun p hp => h p (List.mem_append_right _ hp)) slot hslot

end

/-- **The same for scripts whose interceptors nest**, if their parts are lawful wherever the scripts of
interceptors have the property. -/
theorem runAt_closed (closed : Closed S P) (deep : P (throw (.draft .tooDeep))) (lawful : Step → Prop)
    (hlawful : ∀ run : RunScript, (∀ i ∈ registry, ∀ previous, P (run previous i.script)) →
      ∀ step, lawful step → step.Lawful S P registry run)
    (hregistry : ∀ i ∈ registry, ∀ part ∈ Step.partsAll i.script, lawful part) :
    ∀ (depth : Nat) (previous : String) (script : Script), (∀ part ∈ Step.partsAll script, lawful part) →
      P (runAt registry depth previous script) := by
  intro depth
  induction depth with
  | zero => exact fun _ _ _ => deep
  | succ depth ih =>
    intro previous script h
    have hrun : ∀ i ∈ registry, ∀ previous, P (runAt registry depth previous i.script) :=
      fun i hi previous => ih previous i.script (hregistry i hi)
    exact runSteps_closed closed previous script fun p hp => hlawful _ hrun p (h p hp)

end Script

/-! ### Properties that sections keep -/

namespace Script

/-- A property that composing steps and opening and closing sections keep, if symbols that are mentioned satisfy
`S`. -/
structure SectionClosed (S : Symbol → Prop) (P : DraftM Unit → Prop) : Prop extends Closed S P where
  sections : ∀ {f : Draft → Draft}, SectionChange f → P (modify f)
  leaving : ∀ {act : DraftM Unit}, P act → P (leaving act)
  unmatched : P (throw (.draft .unmatchedPop))
  pastEnd : P (throw (.draft .pastEnd))

namespace SectionClosed

variable {S : Symbol → Prop} {P : DraftM Unit → Prop} (closed : SectionClosed S P) {registry : Registry}
  {run : RunScript} (hrun : ∀ i ∈ registry, ∀ previous, P (run previous i.script))

include closed hrun

theorem scripts (s : Section) (a : Action) {f : Script → DraftM Unit}
    (hf : ∀ script, (∀ previous, P (run previous script)) → P (f script)) : P ((registry.scripts s a).forM f) := by
  have hscripts : ∀ script ∈ registry.scripts s a, P (f script) := by
    intro script hscript
    obtain ⟨i, hi, rfl⟩ := mem_scripts hscript
    exact hf i.script (hrun i hi)
  generalize registry.scripts s a = scripts at hscripts
  induction scripts with
  | nil => exact closed.done
  | cons script rest ih =>
    exact closed.seq (hscripts script List.mem_cons_self) (ih fun t ht => hscripts t (List.mem_cons_of_mem _ ht))

theorem pushSection (place : Option Section) : P (Draft.pushSection registry run place) := by
  refine closed.seq (closed.sections (.openScope place)) ?_
  cases place with
  | none => exact closed.done
  | some s =>
    exact closed.seq (closed.leaving (closed.scripts hrun s .prepend fun _ h => h "")) (closed.sections .restartScope)

theorem closeSection : P (Draft.closeSection registry run) := by
  refine closed.read fun d _ => ?_
  split
  · refine closed.seq (closed.scripts hrun _ .replace fun script h => ?_)
      (closed.scripts hrun _ .append fun _ h => h "")
    refine closed.read fun d _ => ?_
    split
    · exact closed.pastEnd
    · exact closed.seq (closed.sections (.replace _)) (h _)
  · exact closed.done

theorem popSection : P (Draft.popSection registry run) := by
  have hclose : P (andThen (Draft.closeSection registry run) closeScope) :=
    closed.seq (closed.leaving (closed.closeSection hrun)) (closed.sections .closeScope)
  refine closed.read fun d _ => ?_
  split
  · exact closed.seq closed.unmatched hclose
  · exact hclose

theorem lawful {step : Step} (hnames : step.Names S) (h : ∀ e, step = .fail e → P (throw e)) :
    step.Lawful S P registry run := by
  refine ⟨hnames, ?_⟩
  cases step with
  | push place => exact closed.pushSection hrun place
  | pop => exact closed.popSection hrun
  | scope place body =>
    intro act hact
    exact closed.seq (closed.pushSection hrun place) (closed.seq (closed.leaving hact) (closed.popSection hrun))
  | fail e => exact h e rfl
  | _ => trivial

end SectionClosed

/-- **A property that sections keep holds of a script** if it does of the failures among its parts and those of
interceptors, and they mention symbols of the kind. -/
theorem runAt_sectionClosed {S : Symbol → Prop} {P : DraftM Unit → Prop} (closed : SectionClosed S P)
    (deep : P (throw (.draft .tooDeep))) {registry : Registry}
    (hregistry : ∀ i ∈ registry, ∀ part ∈ Step.partsAll i.script, part.Names S ∧ ∀ e, part = .fail e → P (throw e))
    (depth : Nat) (previous : String) {script : Script}
    (h : ∀ part ∈ Step.partsAll script, part.Names S ∧ ∀ e, part = .fail e → P (throw e)) :
    P (runAt registry depth previous script) :=
  runAt_closed closed.toClosed deep (fun step => step.Names S ∧ ∀ e, step = .fail e → P (throw e))
    (fun _ hrun _ hstep => closed.lawful hrun hstep.1 hstep.2) hregistry depth previous script h

end Script

/-! ### Relations that changes keep -/

namespace Draft

theorem run_andThen (act : DraftM Unit) (after : Draft → Draft) (d : Draft) :
    (andThen act after).run d = ((act.run d).1, after (act.run d).2) := by
  unfold andThen
  rw [run_bind, run_tryCatch]
  cases act.run d with
  | mk r d' => cases r <;> rfl

theorem run_runBlock (act : DraftM Unit) (d : Draft) : (runBlock act).run d =
    (andThen act (fun d' => { d' with blockIndent := d.blockIndent }) >>= fun _ =>
      modify fun d' => (dropLineEnd d.text.size d').resetLine).run
    { d with blockIndent := d.blockIndent + d.column } := rfl

/-- A block gives back the indentation, and if it succeeds the line is the one that the text shows. -/
theorem runBlock_leaves (act : DraftM Unit) (d : Draft) : ∃ left,
    left = { (act.run { d with blockIndent := d.blockIndent + d.column }).2 with blockIndent := d.blockIndent } ∧
    (((runBlock act).run d).2 = left ∨ ((runBlock act).run d).2 = (dropLineEnd d.text.size left).resetLine) := by
  refine ⟨_, rfl, ?_⟩
  rw [run_runBlock, run_bind, run_andThen]
  cases (act.run { d with blockIndent := d.blockIndent + d.column }).1 with
  | ok _ => exact .inr rfl
  | error _ => exact .inl rfl

/-- However the change ends, the draft that it leaves is related to the one that it found. -/
def Keeps {α : Type} (R : Draft → Draft → Prop) (x : DraftM α) : Prop := ∀ d, R d (x.run d).2

/-- A relation that holds for a sequence of changes if it does for each of them. -/
structure Chain (R : Draft → Draft → Prop) : Prop where
  refl : ∀ d, R d d
  trans : ∀ {d₁ d₂ d₃}, R d₁ d₂ → R d₂ d₃ → R d₁ d₃

namespace Chain

variable {R : Draft → Draft → Prop} (chain : Chain R) {α β : Type}

include chain

theorem keeps_pure (a : α) : Keeps R (pure a : DraftM α) := fun d => chain.refl d

theorem keeps_throw (e : Error) : Keeps R (throw e : DraftM α) := fun d => chain.refl d

theorem keeps_bind {x : DraftM α} {f : α → DraftM β} (hx : Keeps R x) (hf : ∀ a, Keeps R (f a)) :
    Keeps R (x >>= f) := by
  intro d
  have hd := hx d
  rw [run_bind]
  cases hr : x.run d with
  | mk r d' =>
    rw [hr] at hd
    cases r with
    | ok a => exact chain.trans hd (hf a d')
    | error e => exact hd

theorem keeps_andThen {act : DraftM Unit} (h : Keeps R act) {after : Draft → Draft} (hafter : ∀ d, R d (after d)) :
    Keeps R (andThen act after) := by
  intro d
  rw [run_andThen]
  exact chain.trans (h d) (hafter _)

theorem keeps_leaving {act : DraftM Unit} (h : Keeps R act) (hclose : ∀ d, R d d.closeScope) :
    Keeps R (leaving act) := by
  intro d
  have hd := h d
  unfold leaving
  rw [run_tryCatch]
  cases hr : act.run d with
  | mk r d' =>
    rw [hr] at hd
    cases r with
    | ok _ => exact hd
    | error e => exact chain.trans hd (hclose d')

end Chain

theorem importSymbol_record (d : Draft) (s : Symbol) :
    ∃ imports dependencies, d.importSymbol s = { d with imports, dependencies } := by
  have hdependencies : ∀ (deps : List Dependency) (d : Draft),
      ∃ dependencies, deps.foldl addDependency d = { d with dependencies } := by
    intro deps
    induction deps with
    | nil => exact fun d => ⟨d.dependencies, rfl⟩
    | cons dep deps ih => exact fun d => ih (d.addDependency dep)
  have hone : ∀ (d : Draft) (s : Symbol), ∃ imports dependencies, d.importOne s = { d with imports, dependencies } := by
    intro d s
    obtain ⟨dependencies, h⟩ := hdependencies s.dependencies d
    unfold importOne
    rw [h]
    dsimp only
    split
    · exact ⟨d.imports, dependencies, rfl⟩
    · exact ⟨_, dependencies, rfl⟩
  unfold Draft.importSymbol
  induction s.closure generalizing d with
  | nil => exact ⟨d.imports, d.dependencies, rfl⟩
  | cons t ts ih =>
    obtain ⟨imports, dependencies, h⟩ := hone d t
    obtain ⟨imports', dependencies', h'⟩ := ih (d.importOne t)
    refine ⟨imports', dependencies', ?_⟩
    rw [List.foldl_cons, h', h]

/-- A relation that holds for each change that a step makes, and for a block if it does for what is in it. -/
structure Law (R : Draft → Draft → Prop) : Prop extends Chain R where
  put : ∀ d s, R d (d.put s)
  record : ∀ d imports dependencies, R d { d with imports, dependencies }
  putValue : ∀ d key value, R d (d.putValue key value)
  indent : ∀ d indent, R d { d with indent }
  block : ∀ {act : DraftM Unit}, Keeps R act → Keeps R (runBlock act)

namespace Law

variable {R : Draft → Draft → Prop} (law : Law R)

include law

theorem importSymbol (d : Draft) (s : Symbol) : R d (d.importSymbol s) := by
  obtain ⟨imports, dependencies, h⟩ := importSymbol_record d s
  rw [h]
  exact law.record d imports dependencies

theorem change {f : Draft → Draft} (h : Change Symbol.Any f) (d : Draft) : R d (f d) := by
  cases h with
  | put s => exact law.put d s
  | docs s =>
    dsimp only
    unfold putDocs
    split
    · exact law.refl d
    · exact law.put d _
  | mention _ | mentionDeferred _ => exact law.trans (law.importSymbol d _) (law.put _ _)
  | importSymbol _ => exact law.importSymbol d _
  | importModule module => exact law.record d _ d.dependencies
  | dependency dep => exact law.record d d.imports _
  | putValue key _ => exact law.putValue d key _
  | indent | dedent => exact law.indent d _
  | enter => exact law.trans (law.put d "\n") (law.indent _ _)

/-- **A relation with these properties is kept by scripts** as their parts allow. -/
theorem closed : Script.Closed Symbol.Any (Keeps R) where
  done := law.keeps_pure ()
  seq hx hy := law.keeps_bind hx fun _ => hy
  read h d := h d (fun _ _ _ => trivial) d
  change h d := law.change h d
  raise _ := law.keeps_throw _
  leave h := law.keeps_andThen h fun d => law.indent d _
  block h := law.block h

/-- A relation that holds for the changes of sections too is kept by all scripts. -/
theorem sectionClosed (h : ∀ {f : Draft → Draft}, SectionChange f → ∀ d, R d (f d)) :
    Script.SectionClosed Symbol.Any (Keeps R) where
  toClosed := law.closed
  sections hf d := h hf d
  leaving hact := law.keeps_leaving hact (h .closeScope)
  unmatched := law.keeps_throw _
  pastEnd := law.keeps_throw _

end Law

end Draft

end ClientGen
