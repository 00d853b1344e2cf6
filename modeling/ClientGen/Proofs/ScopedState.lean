import ClientGen.Proofs.DraftText
import ClientGen.Proofs.ScriptInduction

/-!
# Scopes give back what they take

A scope may be left at any step of its body and of the interceptors of its section. However it is left, the
scopes around it, their values and the indentation are those that it found, and what was written before it
still stands.

* `Script.scope_restores`: a scope gives back what it takes.
-/

namespace ClientGen

/-- The step opens a scope and leaves it open, or closes one that another step opened. -/
def Step.isLoose : Step → Bool
  | .push _ => true
  | .pop => true
  | _ => false

/-- Scopes are opened and closed in pairs, at any depth. -/
def Script.Paired (script : Script) : Prop := ∀ part ∈ Step.partsAll script, part.isLoose = false

instance (script : Script) : Decidable script.Paired :=
  inferInstanceAs (Decidable (∀ part ∈ Step.partsAll script, part.isLoose = false))

namespace Draft

/-- What happens inside the scopes that are open: text is added, and values change in the innermost scope
only. -/
structure Within (d d' : Draft) : Prop where
  text : ∃ added : String, d'.text = d.text ++ added.toUTF8
  blockIndent : d'.blockIndent = d.blockIndent
  scopes : (d.scopes = [] ∧ d'.scopes = []) ∨
    (d'.values = d.values ∧
      ∃ top rest values, d.scopes = top :: rest ∧ d'.scopes = { top with values } :: rest)

/-- Everything that a scope has to give back. -/
structure Restores (d d' : Draft) : Prop where
  text : ∃ added : String, d'.text = d.text ++ added.toUTF8
  indent : d'.indent = d.indent
  blockIndent : d'.blockIndent = d.blockIndent
  values : d'.values = d.values
  scopes : d'.scopes = d.scopes

variable {d d₁ d₂ d₃ : Draft}

theorem text_refl (d : Draft) : ∃ added : String, d.text = d.text ++ added.toUTF8 :=
  ⟨"", ByteArray.append_empty.symm⟩

theorem Within.of_scopes_eq (htext : ∃ added : String, d₂.text = d₁.text ++ added.toUTF8)
    (hblock : d₂.blockIndent = d₁.blockIndent) (hvalues : d₂.values = d₁.values) (hscopes : d₂.scopes = d₁.scopes) :
    Within d₁ d₂ := by
  refine ⟨htext, hblock, ?_⟩
  cases h : d₁.scopes with
  | nil => exact .inl ⟨rfl, hscopes.trans h⟩
  | cons top rest => exact .inr ⟨hvalues, top, rest, top.values, rfl, hscopes.trans h⟩

theorem Restores.within (h : Restores d₁ d₂) : Within d₁ d₂ :=
  .of_scopes_eq h.text h.blockIndent h.values h.scopes

theorem Within.trans (h : Within d₁ d₂) (h' : Within d₂ d₃) : Within d₁ d₃ := by
  obtain ⟨s, hs⟩ := h.text
  obtain ⟨s', hs'⟩ := h'.text
  refine ⟨⟨s ++ s', ?_⟩, h'.blockIndent.trans h.blockIndent, ?_⟩
  · rw [hs', hs, toUTF8_append, ByteArray.append_assoc]
  rcases h.scopes with ⟨h₁, h₂⟩ | ⟨hv, top, rest, values, h₁, h₂⟩
  · rcases h'.scopes with ⟨-, h₃⟩ | ⟨-, _, _, _, h₂', -⟩
    · exact .inl ⟨h₁, h₃⟩
    · rw [h₂] at h₂'
      cases h₂'
  · rcases h'.scopes with ⟨h₂', -⟩ | ⟨hv', _, _, values', h₂', h₃⟩
    · rw [h₂] at h₂'
      cases h₂'
    · rw [h₂] at h₂'
      cases h₂'
      exact .inr ⟨hv'.trans hv, top, rest, values', h₁, h₃⟩

theorem within_putValue (d : Draft) (key : String) (value : ContextValue) : Within d (d.putValue key value) := by
  unfold putValue
  split
  · rename_i h
    exact ⟨text_refl d, rfl, .inl ⟨h, h⟩⟩
  · rename_i top rest h
    exact ⟨text_refl d, rfl, .inr ⟨rfl, top, rest, _, h, rfl⟩⟩

theorem within_put (d : Draft) (s : String) : Within d (d.put s) := by
  have htext := put_text d s
  obtain ⟨text, atLineStart, column, h⟩ := put_frame d s
  rw [h] at htext ⊢
  exact .of_scopes_eq ⟨_, htext⟩ rfl rfl rfl

theorem dropLineEnd_frame (start : Nat) (d : Draft) : ∃ text, dropLineEnd start d = { d with text } := by
  unfold dropLineEnd
  dsimp only
  split
  · exact ⟨_, rfl⟩
  · exact ⟨_, rfl⟩

/-- The line end that a block drops was written by it, so nothing before the block is lost. -/
theorem within_runBlock {act : DraftM Unit} (h : Keeps Within act) : Keeps Within (runBlock act) := by
  intro d
  have hact := h { d with blockIndent := d.blockIndent + d.column }
  obtain ⟨left, heq, hleft⟩ := runBlock_leaves act d
  have hw : Within d left := by
    rw [heq]
    exact ⟨hact.text, rfl, hact.scopes⟩
  rcases hleft with hleft | hleft
  · rw [hleft]
    exact hw
  · obtain ⟨added, hadded⟩ := hw.text
    have hkept := dropLineEnd_text hadded
    obtain ⟨text, hframe⟩ := dropLineEnd_frame d.text.size left
    rw [hleft, hframe]
    rw [hframe] at hkept
    exact ⟨hkept, hw.blockIndent, hw.scopes⟩

theorem within_law : Law Within where
  refl d := .of_scopes_eq (text_refl d) rfl rfl rfl
  trans h h' := h.trans h'
  put := within_put
  record d _ _ := .of_scopes_eq (text_refl d) rfl rfl rfl
  putValue := within_putValue
  indent d _ := .of_scopes_eq (text_refl d) rfl rfl rfl
  block := within_runBlock

/-! ### Inside a scope -/

/-- The draft is inside a scope that was opened at `d` and whose own text begins after `base`. -/
structure Inside (d : Draft) (place : Option Section) (base : ByteArray) (d' : Draft) : Prop where
  scopes : ∃ values, d'.scopes =
    { values, place, start := base.size, indent := d.indent, blockIndent := d.blockIndent } :: d.scopes
  values : d'.values = d.values
  text : ∃ added : String, d'.text = base ++ added.toUTF8

variable {place : Option Section} {base : ByteArray}

theorem inside_openScope (d : Draft) (place : Option Section) : Inside d place d.text (d.openScope place) :=
  ⟨⟨[], rfl⟩, rfl, text_refl d⟩

theorem Inside.scopes_ne_nil (h : Inside d place base d₁) : d₁.scopes ≠ [] := by
  obtain ⟨values, hscopes⟩ := h.scopes
  rw [hscopes]
  exact List.cons_ne_nil _ _

theorem Inside.step (h : Inside d place base d₁) (hw : Within d₁ d₂) : Inside d place base d₂ := by
  obtain ⟨values, hscopes⟩ := h.scopes
  rcases hw.scopes with ⟨hnil, -⟩ | ⟨hvalues, top, rest, values', htop, hscopes'⟩
  · rw [hscopes] at hnil
    cases hnil
  rw [hscopes] at htop
  cases htop
  refine ⟨⟨values', hscopes'⟩, hvalues.trans h.values, ?_⟩
  obtain ⟨s, hs⟩ := h.text
  obtain ⟨s', hs'⟩ := hw.text
  exact ⟨s ++ s', by rw [hs', hs, toUTF8_append, ByteArray.append_assoc]⟩

theorem Inside.restart (h : Inside d place base d₁) : Inside d place d₁.text d₁.restartScope := by
  obtain ⟨values, hscopes⟩ := h.scopes
  unfold restartScope
  rw [hscopes]
  exact ⟨⟨values, rfl⟩, h.values, text_refl d₁⟩

theorem Inside.base_le (h : Inside d place base d₁) : base.size ≤ d₁.text.size := by
  obtain ⟨s, hs⟩ := h.text
  rw [hs, ByteArray.size_append]
  omega

theorem Inside.truncate_text (h : Inside d place base d₁) : (d₁.truncate base.size).text = base := by
  obtain ⟨s, hs⟩ := h.text
  show d₁.text.extract 0 base.size = base
  rw [hs]
  exact ByteArray.extract_append_eq_left rfl

theorem Inside.truncate (h : Inside d place base d₁) : Inside d place base (d₁.truncate base.size).resetLine :=
  ⟨h.scopes, h.values, "", h.truncate_text.trans ByteArray.append_empty.symm⟩

theorem Inside.close {added : String} (h : Inside d place (d.text ++ added.toUTF8) d₁) : Restores d d₁.closeScope := by
  obtain ⟨values, hscopes⟩ := h.scopes
  obtain ⟨s, hs⟩ := h.text
  unfold closeScope
  rw [hscopes]
  refine ⟨⟨added ++ s, ?_⟩, rfl, rfl, h.values, rfl⟩
  rw [hs, toUTF8_append, ByteArray.append_assoc]

theorem Keeps.triple {α : Type} {R : Draft → Draft → Prop} {x : DraftM α} (h : Keeps R x) {I : Draft → Prop}
    (hI : ∀ {d d'}, I d → R d d' → I d') : Triple I x (fun _ => I) fun _ => I := by
  intro d hd
  have hd' := hI hd (h d)
  cases hr : x.run d with
  | mk r d' =>
    rw [hr] at hd'
    cases r with
    | ok _ => exact hd'
    | error _ => exact hd'

variable {registry : Registry} {run : RunScript}

/-- The scripts of interceptors stay within the scopes that are open. -/
def RunWithin (registry : Registry) (run : RunScript) : Prop :=
  ∀ i ∈ registry, ∀ previous, Keeps Within (run previous i.script)

theorem RunWithin.script (hrun : RunWithin registry run) {s : Section} {a : Action} {script : Script}
    (h : script ∈ registry.scripts s a) (previous : String) : Keeps Within (run previous script) := by
  obtain ⟨i, hi, rfl⟩ := mem_scripts h
  exact hrun i hi previous

theorem scripts_inside (hrun : RunWithin registry run) (s : Section) (a : Action) :
    Triple (Inside d place base) ((registry.scripts s a).forM (run "")) (fun _ => Inside d place base)
      fun _ => Inside d place base :=
  Triple.forM _ fun _ hscript => (hrun.script hscript "").triple Inside.step

theorem leaving_restores {I : Draft → Prop} {act : DraftM Unit} (hact : Triple I act (fun _ => I) fun _ => I)
    (hI : ∀ d', I d' → Restores d d'.closeScope) : Triple I (leaving act) (fun _ => I) fun _ => Restores d :=
  Triple.tryCatch hact fun _ d' h => hI d' h

theorem pushSection_inside (hrun : RunWithin registry run) (d : Draft) (place : Option Section) :
    Triple (· = d) (pushSection registry run place)
      (fun _ d' => ∃ added : String, Inside d place (d.text ++ added.toUTF8) d') fun _ => Restores d := by
  have hopen : Inside d place (d.text ++ "".toUTF8) (d.openScope place) := by
    rw [toUTF8_empty, ByteArray.append_empty]
    exact inside_openScope d place
  cases place with
  | none =>
    rintro _ rfl
    exact ⟨"", hopen⟩
  | some s =>
    refine Triple.bind (Q := fun _ => Inside d (some s) (d.text ++ "".toUTF8)) ?_ fun _ => ?_
    · rintro _ rfl
      exact hopen
    refine Triple.bind (leaving_restores (scripts_inside hrun s .prepend) fun _ h => h.close) fun _ => ?_
    intro d' h
    obtain ⟨added, hadded⟩ := h.text
    refine ⟨"" ++ added, ?_⟩
    rw [toUTF8_append, ← ByteArray.append_assoc, ← hadded]
    exact h.restart

theorem replaceFrom_inside (hrun : RunWithin registry run) {s : Section} {script : Script}
    (hscript : script ∈ registry.scripts s .replace) :
    Triple (Inside d place base) (replaceFrom run base.size script) (fun _ => Inside d place base)
      fun _ => Inside d place base := by
  refine Triple.get_bind fun d' h => ?_
  rw [if_neg (by have := h.base_le; omega)]
  refine Triple.bind (Q := fun _ => Inside d place base) ?_ fun _ => ?_
  · rintro _ rfl
    exact h.truncate
  · exact (hrun.script hscript _).triple Inside.step

theorem closeSection_inside (hrun : RunWithin registry run) :
    Triple (Inside d place base) (closeSection registry run) (fun _ => Inside d place base)
      fun _ => Inside d place base := by
  refine Triple.get_bind fun d' h => ?_
  obtain ⟨values, hscopes⟩ := h.scopes
  rw [hscopes]
  cases place with
  | none =>
    rintro _ rfl
    exact h
  | some s =>
    have hreplace : Triple (Inside d (some s) base) ((registry.scripts s .replace).forM (replaceFrom run base.size))
        (fun _ => Inside d (some s) base) fun _ => Inside d (some s) base :=
      Triple.forM _ fun _ hscript => replaceFrom_inside hrun hscript
    refine (hreplace.bind fun _ => scripts_inside hrun s .append).mono ?_ (fun _ _ h => h) fun _ _ h => h
    rintro _ rfl
    exact h

theorem run_leaving_ok {act : DraftM Unit} {d d' : Draft} : (leaving act).run d = (.ok (), d') ↔ act.run d = (.ok (), d') := by
  unfold leaving
  rw [run_tryCatch]
  cases act.run d with
  | mk r d₁ =>
    cases r with
    | ok _ => rfl
    | error e =>
      constructor
      · intro h
        cases h
      · intro h
        cases h

/-- Where nothing is prepended to it, a section is opened where the text ends. -/
theorem run_pushSection {s : Section} (hprepend : registry.scripts s .prepend = []) (d : Draft) :
    (pushSection registry run (some s)).run d = (.ok (), (d.openScope (some s)).restartScope) := by
  unfold pushSection
  dsimp only
  rw [hprepend]
  rfl

theorem run_popSection (h : d.scopes ≠ []) :
    (popSection registry run).run d = (andThen (closeSection registry run) closeScope).run d := by
  unfold popSection
  rw [run_bind]
  show (if d.scopes.isEmpty then _ else _ : DraftM Unit).run d = _
  rw [if_neg (by rwa [List.isEmpty_iff])]

theorem run_closeSection_at {top : Scope} {rest : List Scope} {s : Section} (h : d.scopes = top :: rest)
    (hplace : top.place = some s) : (closeSection registry run).run d =
      ((registry.scripts s .replace).forM (replaceFrom run top.start) >>= fun _ =>
        (registry.scripts s .append).forM (run "")).run d := by
  cases d
  cases top
  cases h
  cases hplace
  rfl

theorem popSection_restores (hrun : RunWithin registry run) :
    Triple (fun d' => ∃ added : String, Inside d place (d.text ++ added.toUTF8) d') (popSection registry run)
      (fun _ => Restores d) fun _ => Restores d := by
  rintro d' ⟨added, h⟩
  rw [run_popSection h.scopes_ne_nil]
  have hclose : Triple (Inside d place (d.text ++ added.toUTF8)) (andThen (closeSection registry run) closeScope)
      (fun _ => Restores d) fun _ => Restores d :=
    (leaving_restores (closeSection_inside hrun) fun _ h => h.close).bind fun _ _ h => h.close
  exact hclose d' h

/-- **A scope gives back what it takes**, if its body and the interceptors keep to what is theirs. -/
theorem inScope_restores (hrun : RunWithin registry run) (place : Option Section) {act : DraftM Unit}
    (hact : Keeps Within act) : Keeps Restores (inScope registry run place act) := by
  intro d
  have hbody : Triple (fun d' => ∃ added : String, Inside d place (d.text ++ added.toUTF8) d') act
      (fun _ d' => ∃ added : String, Inside d place (d.text ++ added.toUTF8) d')
      fun _ d' => ∃ added : String, Inside d place (d.text ++ added.toUTF8) d' := by
    refine hact.triple fun h hw => ?_
    obtain ⟨added, h⟩ := h
    exact ⟨added, h.step hw⟩
  have hleave := leaving_restores (d := d) hbody fun d' h => by
    obtain ⟨added, h⟩ := h
    exact h.close
  have hscope := (pushSection_inside hrun d place).bind fun _ => hleave.bind fun _ => popSection_restores hrun
  exact hscope.of_run rfl

end Draft

open Draft

namespace Script

theorem run_singleton (registry : Registry) (run : RunScript) (previous : String) (step : Step) (d : Draft) :
    (runSteps registry run previous [step]).run d = (runStep registry run previous step).run d := by
  show (runStep registry run previous step >>= fun _ => pure ()).run d = _
  rw [run_bind]
  cases (runStep registry run previous step).run d with
  | mk r d' => cases r <;> rfl

theorem lawful_within {registry : Registry} {run : RunScript} (hrun : RunWithin registry run) (step : Step)
    (h : step.isLoose = false) : step.Lawful Symbol.Any (Keeps Within) registry run := by
  refine ⟨step.names_any, ?_⟩
  cases step with
  | push place => cases h
  | pop => cases h
  | scope place body => exact fun act hact d => (inScope_restores hrun place hact d).within
  | fail e => exact within_law.keeps_throw e
  | _ => trivial

/-- **Paired scripts stay within the scopes that they find open**, however deep interceptors nest. -/
theorem runAt_within {registry : Registry} (hregistry : ∀ i ∈ registry, i.script.Paired) (depth : Nat)
    (previous : String) {script : Script} (h : script.Paired) : Keeps Within (runAt registry depth previous script) :=
  runAt_closed within_law.closed (within_law.keeps_throw _) (fun step => step.isLoose = false)
    (fun _ hrun => lawful_within hrun) hregistry depth previous script h

/-- **A scope gives back what it takes**, whether or not it succeeds: the scopes around it with their values,
the indentation, what every name stands for, and the text before it. -/
theorem scope_restores (registry : Registry) (hregistry : ∀ i ∈ registry, i.script.Paired) (place : Option Section)
    (body : Script) (hbody : body.Paired) (depth : Nat) (previous : String) {d d' : Draft}
    {result : Except Error Unit} (h : (runAt registry depth previous [.scope place body]).run d = (result, d')) :
    d'.scopes = d.scopes ∧ d'.values = d.values ∧ d'.indent = d.indent ∧ d'.blockIndent = d.blockIndent ∧
      (∀ key, d'.value? key = d.value? key) ∧ ∃ added : String, d'.text = d.text ++ added.toUTF8 := by
  have hrestores : Restores d d' := by
    cases depth with
    | zero =>
      cases h
      exact ⟨text_refl d, rfl, rfl, rfl, rfl⟩
    | succ depth =>
      have hrun : RunWithin registry (runAt registry depth) :=
        fun i hi previous => runAt_within hregistry depth previous (hregistry i hi)
      have hact : Keeps Within (runSteps registry (runAt registry depth) previous body) :=
        runAt_within hregistry (depth + 1) previous hbody
      have hscope := inScope_restores hrun place hact d
      have hone := run_singleton registry (runAt registry depth) previous (.scope place body) d
      have hleft : ((runStep registry (runAt registry depth) previous (.scope place body)).run d).2 = d' :=
        congrArg Prod.snd (hone.symm.trans h)
      rw [← hleft]
      exact hscope
  have hvalue : ∀ key, d'.value? key = d.value? key := by
    intro key
    unfold value?
    rw [hrestores.scopes, hrestores.values]
  exact ⟨hrestores.scopes, hrestores.values, hrestores.indent, hrestores.blockIndent, hvalue, hrestores.text⟩

/-- A replacement that writes, changes the indentation and fails. -/
def failingReplacement : Registry :=
  [{ place := .configProperties, action := .replace, script := [.indent, .newline, .fail (.draft .tooDeep)] }]

/-- A draft inside a block and a scope. -/
def nestedDraft : Draft :=
  { ns := "", package := "", scopes := [{ values := [("name", .literal "outer")] }], indent := 1, blockIndent := 3 }

/-- Steps that set a value, change the indentation, and open a scope of their own. -/
def nestedBody : Script := [.put "name" (.literal "inner"), .scope none [.dedent], .indent]

theorem scope_restores_failing :
    ((runAt failingReplacement 2 "" [.scope (some .configProperties) nestedBody]).run nestedDraft).1 =
      .error (.draft .tooDeep) ∧
    ((runAt failingReplacement 2 "" [.scope (some .configProperties) nestedBody]).run nestedDraft).2.scopes =
      nestedDraft.scopes ∧
    ((runAt failingReplacement 2 "" [.scope (some .configProperties) nestedBody]).run nestedDraft).2.indent = 1 := by
  have h := scope_restores failingReplacement (by decide) (some .configProperties) nestedBody (by decide) 2 ""
    (d := nestedDraft) rfl
  exact ⟨by with_unfolding_all rfl, h.1, h.2.2.1⟩

end Script

end ClientGen
