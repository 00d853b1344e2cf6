import ClientGen.Proofs.ScopedState

/-!
# The sections that a script reaches

An interceptor runs where its section is opened and nowhere else. So a script does the same with any other
interceptors, as long as they are those of the sections that it opens, that the interceptors of these open, and
so on.

* `Draft.inScope_congr`: a scope uses no interceptors but those of its section.
* `Script.runAt_congr`: a script uses no interceptors but those of the sections that it opens.
-/

namespace ClientGen

/-- The section that the step opens. -/
def Step.place? : Step → Option Section
  | .push place => place
  | .scope place _ => place
  | _ => none

/-- The script opens the section, or the script of an interceptor that it brings about does. -/
inductive Script.Opens (registry : Registry) : Script → Section → Prop where
  | own {script : Script} {part : Step} {s : Section} :
      part ∈ Step.partsAll script → part.place? = some s → Opens registry script s
  | intercepted {script : Script} {i : Interceptor} {s t : Section} :
      Opens registry script s → i ∈ registry.forSection s → Opens registry i.script t → Opens registry script t

theorem Registry.mem_forSection {registry : Registry} {s : Section} {i : Interceptor} :
    i ∈ registry.forSection s ↔ i ∈ registry ∧ i.place = s := by
  unfold forSection
  rw [List.mem_mergeSort, List.mem_filter, beq_iff_eq]

namespace Draft

theorem ext_run {x y : DraftM Unit} (h : ∀ d, x.run d = y.run d) : x = y := funext h

theorem forM_congr {α : Type} {f g : α → DraftM Unit} {l : List α} (h : ∀ a ∈ l, f a = g a) : l.forM f = l.forM g := by
  induction l with
  | nil => rfl
  | cons a l ih =>
    show (f a >>= fun _ => l.forM f) = (g a >>= fun _ => l.forM g)
    rw [h a List.mem_cons_self, ih fun b hb => h b (List.mem_cons_of_mem _ hb)]

/-- The interceptors of the section are the same, and so is what their scripts do. -/
structure Agree (registry registry' : Registry) (run run' : RunScript) (s : Section) : Prop where
  forSection : registry'.forSection s = registry.forSection s
  run : ∀ i ∈ registry.forSection s, ∀ previous, run' previous i.script = run previous i.script

variable {registry registry' : Registry} {run run' : RunScript} {s : Section} {d : Draft}

theorem Agree.scripts (h : Agree registry registry' run run' s) (a : Action) {f f' : Script → DraftM Unit}
    (hf : ∀ script, (∀ previous, run' previous script = run previous script) → f' script = f script) :
    (registry'.scripts s a).forM f' = (registry.scripts s a).forM f := by
  unfold Registry.scripts
  rw [h.forSection]
  apply forM_congr
  intro script hscript
  obtain ⟨i, hi, rfl⟩ := List.mem_map.1 hscript
  exact hf i.script (h.run i (List.mem_of_mem_filter hi))

variable {place : Option Section} (h : ∀ s, place = some s → Agree registry registry' run run' s)

include h

theorem pushSection_congr : pushSection registry' run' place = pushSection registry run place := by
  cases place with
  | none => rfl
  | some s =>
    have hscripts := (h s rfl).scripts .prepend fun _ hrun => hrun ""
    unfold pushSection
    dsimp only
    rw [hscripts]

omit h in
theorem run_closeSection {base : ByteArray} {d' : Draft} (hin : Inside d (some s) base d') :
    (closeSection registry run).run d' =
      ((registry.scripts s .replace).forM (replaceFrom run base.size) >>= fun _ =>
        (registry.scripts s .append).forM (run "")).run d' := by
  obtain ⟨values, hscopes⟩ := hin.scopes
  exact run_closeSection_at hscopes rfl

omit h in
theorem run_closeSection_none {base : ByteArray} {d' : Draft} (hin : Inside d none base d') :
    (closeSection registry run).run d' = (.ok (), d') := by
  obtain ⟨values, hscopes⟩ := hin.scopes
  cases d' with
  | mk =>
    cases hscopes
    rfl

theorem popSection_congr {base : ByteArray} {d' : Draft} (hin : Inside d place base d') :
    (popSection registry' run').run d' = (popSection registry run).run d' := by
  rw [run_popSection hin.scopes_ne_nil, run_popSection hin.scopes_ne_nil, run_andThen, run_andThen]
  cases place with
  | none => rw [run_closeSection_none hin, run_closeSection_none hin]
  | some s =>
    have hreplace := (h s rfl).scripts .replace fun script hrun =>
      show replaceFrom run' base.size script = replaceFrom run base.size script by
        unfold replaceFrom
        simp only [hrun]
    have happend := (h s rfl).scripts .append fun _ hrun => hrun ""
    rw [run_closeSection hin, run_closeSection hin, hreplace, happend]

/-- **A scope uses no interceptors but those of its section**, if what it does itself keeps the scope open. -/
theorem inScope_congr (hrun : RunWithin registry run) {act : DraftM Unit} (hact : Keeps Within act) :
    inScope registry' run' place act = inScope registry run place act := by
  apply ext_run
  intro d
  unfold inScope
  rw [pushSection_congr h, run_bind, run_bind]
  have hpush := pushSection_inside hrun d place d rfl
  cases hr : (pushSection registry run place).run d with
  | mk r d₁ =>
    cases r with
    | error e => rfl
    | ok _ =>
      rw [hr] at hpush
      obtain ⟨added, hin⟩ := hpush
      dsimp only
      unfold leaving
      rw [run_bind, run_bind, run_tryCatch]
      have hbody := hact d₁
      cases hr' : act.run d₁ with
      | mk r d₂ =>
        rw [hr'] at hbody
        cases r with
        | error e => rfl
        | ok _ => exact popSection_congr h (hin.step hbody)

end Draft

open Draft

/-- The step leaves no scope open, and for the section that it opens the interceptors are the same. -/
structure Step.Settled (registry registry' : Registry) (run run' : RunScript) (step : Step) : Prop where
  paired : step.isLoose = false
  agree : ∀ s, step.place? = some s → Agree registry registry' run run' s

namespace Script

variable {registry registry' : Registry} {run run' : RunScript}

mutual

theorem runStep_congr (hrun : RunWithin registry run) (previous : String) : ∀ step : Step,
    (∀ part ∈ step.parts, part.Settled registry registry' run run') →
    runStep registry' run' previous step = runStep registry run previous step
  | .line _ args, h | .inline _ args, h => by
    have hslots := slots_congr hrun previous args fun p hp => h p (List.mem_cons_of_mem _ hp)
    unfold runStep
    rw [hslots]
  | .block _ args body, h | .define _ _ _ args body, h => by
    have hslots := slots_congr hrun previous args fun p hp => h p (List.mem_cons_of_mem _ (List.mem_append_left _ hp))
    have hbody := runSteps_congr hrun previous body fun p hp => h p (List.mem_cons_of_mem _ (List.mem_append_right _ hp))
    unfold runStep
    rw [hslots, hbody]
  | .scope place body, h => by
    have hparts : ∀ part ∈ Step.partsAll body, part.Settled registry registry' run run' :=
      fun p hp => h p (List.mem_cons_of_mem _ hp)
    have hbody := runSteps_congr hrun previous body hparts
    -- the body keeps the scope open, so its end finds the section that its beginning opened
    have hwithin : Keeps Within (runSteps registry run previous body) :=
      runSteps_closed within_law.closed previous body fun p hp => lawful_within hrun p (hparts p hp).paired
    show inScope registry' run' place (runSteps registry' run' previous body) = _
    rw [hbody]
    exact inScope_congr (h (.scope place body) List.mem_cons_self).agree hrun hwithin
  | .push _, h | .pop, h => by cases (h _ List.mem_cons_self).paired
  | .newline, _ | .indent, _ | .dedent, _ | .docs _, _ | .importSymbol _, _ | .importModule _, _ | .dependency _, _
  | .put _ _, _ | .fail _, _ => rfl

theorem runSteps_congr (hrun : RunWithin registry run) (previous : String) : ∀ steps : List Step,
    (∀ part ∈ Step.partsAll steps, part.Settled registry registry' run run') →
    runSteps registry' run' previous steps = runSteps registry run previous steps
  | [], _ => rfl
  | step :: rest, h => by
    have hstep := runStep_congr hrun previous step fun p hp => h p (List.mem_append_left _ hp)
    have hrest := runSteps_congr hrun previous rest fun p hp => h p (List.mem_append_right _ hp)
    unfold runSteps
    rw [hstep, hrest]

theorem slot_congr (hrun : RunWithin registry run) (previous : String) : ∀ arg : Arg,
    (∀ part ∈ arg.parts, part.Settled registry registry' run run') →
    slot registry' run' previous arg = slot registry run previous arg
  | .code body, h => congrArg Slot.block (runSteps_congr hrun previous body h)
  | .literal _, _ | .symbol _, _ | .deferred _, _ | .name _, _ | .previous, _ => rfl

theorem slots_congr (hrun : RunWithin registry run) (previous : String) : ∀ args : List Arg,
    (∀ part ∈ Arg.partsAll args, part.Settled registry registry' run run') →
    slots registry' run' previous args = slots registry run previous args
  | [], _ => rfl
  | arg :: rest, h => by
    have harg := slot_congr hrun previous arg fun p hp => h p (List.mem_append_left _ hp)
    have hrest := slots_congr hrun previous rest fun p hp => h p (List.mem_append_right _ hp)
    unfold slots
    rw [harg, hrest]

end

/-- **A script uses no interceptors but those of the sections that it opens.** -/
theorem runAt_congr (hregistry : ∀ i ∈ registry, i.script.Paired) : ∀ (depth : Nat) (previous : String)
    (script : Script), script.Paired → (∀ s, Opens registry script s → registry'.forSection s = registry.forSection s) →
    runAt registry' depth previous script = runAt registry depth previous script := by
  intro depth
  induction depth with
  | zero => exact fun _ _ _ _ => rfl
  | succ depth ih =>
    intro previous script hpaired h
    have hrun : RunWithin registry (runAt registry depth) :=
      fun i hi previous => runAt_within hregistry depth previous (hregistry i hi)
    refine runSteps_congr hrun previous script fun part hpart => ⟨hpaired part hpart, fun s hs => ?_⟩
    have hopens : Opens registry script s := .own hpart hs
    refine ⟨h s hopens, fun i hi previous => ?_⟩
    have hmem := (Registry.mem_forSection.1 hi).1
    exact ih previous i.script (hregistry i hmem) fun t ht => h t (.intercepted hopens hi ht)

end Script

end ClientGen
