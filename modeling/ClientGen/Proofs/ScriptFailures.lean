import ClientGen.Proofs.Collision
import ClientGen.Proofs.ScriptInduction

/-!
# What carrying out a script fails with

A script fails with an error that one of its steps holds, or because templates, arguments or sections do
not fit.

* `Script.run_raises`: carrying out a script fails with an error that it, or the script of an
  interceptor, holds; or with one that is no collision of names.
* `Folder.applyAll_raises`: the same for edits of files.
-/

namespace ClientGen

mutual

/-- The errors that a step holds. -/
def Step.failures : Step → List Error
  | .line _ args => Arg.failuresAll args
  | .inline _ args => Arg.failuresAll args
  | .block _ args body => Arg.failuresAll args ++ Step.failuresAll body
  | .define _ _ _ args body => Arg.failuresAll args ++ Step.failuresAll body
  | .scope _ body => Step.failuresAll body
  | .fail e => [e]
  | _ => []

def Step.failuresAll : List Step → List Error
  | [] => []
  | s :: rest => Step.failures s ++ Step.failuresAll rest

def Arg.failures : Arg → List Error
  | .code body => Step.failuresAll body
  | _ => []

def Arg.failuresAll : List Arg → List Error
  | [] => []
  | a :: rest => Arg.failures a ++ Arg.failuresAll rest

end

theorem Step.failuresAll_append (steps more : List Step) :
    Step.failuresAll (steps ++ more) = Step.failuresAll steps ++ Step.failuresAll more := by
  induction steps with
  | nil => rfl
  | cons s rest ih => simp [Step.failuresAll, ih]

theorem Step.mem_failuresAll {steps : List Step} {e : Error} :
    e ∈ Step.failuresAll steps ↔ ∃ s ∈ steps, e ∈ s.failures := by
  induction steps with
  | nil => simp [Step.failuresAll]
  | cons s rest ih => simp [Step.failuresAll, ih]

/-- What the computation fails with satisfies `P`. -/
def Raises {σ α : Type} (P : Error → Prop) (x : ExceptT Error (StateM σ) α) : Prop :=
  Triple (fun _ => True) x (fun _ _ => True) fun e _ => P e

section Rules

variable {σ α β : Type} {P : Error → Prop} {x : ExceptT Error (StateM σ) α}

theorem Raises.bind {f : α → ExceptT Error (StateM σ) β} (hx : Raises P x) (hf : ∀ a, Raises P (f a)) :
    Raises P (x >>= f) :=
  Triple.bind hx fun a => hf a

theorem raises_pure (a : α) : Raises P (Pure.pure a : ExceptT Error (StateM σ) α) := fun _ _ => trivial

theorem raises_throw {e : Error} (h : P e) : Raises P (throw e : ExceptT Error (StateM σ) α) := fun _ _ => h

theorem raises_modify (f : σ → σ) : Raises P (modify f : ExceptT Error (StateM σ) Unit) := fun _ _ => trivial

theorem raises_get : Raises P (get : ExceptT Error (StateM σ) σ) := fun _ _ => trivial

theorem Raises.tryCatch {f : Error → ExceptT Error (StateM σ) α} (hx : Raises P x)
    (hf : ∀ e, P e → Raises P (f e)) : Raises P (MonadExcept.tryCatch x f) :=
  Triple.tryCatch hx fun e t he => hf e he t trivial

theorem raises_rethrow (hx : Raises P x) (f : σ → σ) :
    Raises P (MonadExcept.tryCatch x fun e => do modify f; throw e) :=
  hx.tryCatch fun _ he => (raises_modify f).bind fun _ => raises_throw he

end Rules

mutual

theorem Step.mem_failures {e : Error} : ∀ step : Step, .fail e ∈ step.parts → e ∈ step.failures
  | .line _ args, h | .inline _ args, h => by
    rcases List.mem_cons.1 h with h | h
    · cases h
    · exact Arg.mem_failuresAll args h
  | .block _ args body, h | .define _ _ _ args body, h => by
    rcases List.mem_cons.1 h with h | h
    · cases h
    rcases List.mem_append.1 h with h | h
    · exact List.mem_append_left _ (Arg.mem_failuresAll args h)
    · exact List.mem_append_right _ (Step.mem_failuresAll_of_parts body h)
  | .scope _ body, h => by
    rcases List.mem_cons.1 h with h | h
    · cases h
    · exact Step.mem_failuresAll_of_parts body h
  | .fail _, h => by
    cases List.mem_singleton.1 h
    exact List.mem_cons_self
  | .newline, h | .indent, h | .dedent, h | .docs _, h | .importSymbol _, h | .importModule _, h | .dependency _, h
  | .put _ _, h | .push _, h | .pop, h => by cases List.mem_singleton.1 h

theorem Step.mem_failuresAll_of_parts {e : Error} : ∀ steps : List Step,
    .fail e ∈ Step.partsAll steps → e ∈ Step.failuresAll steps
  | [], h => by cases h
  | step :: rest, h => by
    rcases List.mem_append.1 h with h | h
    · exact List.mem_append_left _ (Step.mem_failures step h)
    · exact List.mem_append_right _ (Step.mem_failuresAll_of_parts rest h)

theorem Arg.mem_failures {e : Error} : ∀ arg : Arg, .fail e ∈ arg.parts → e ∈ arg.failures
  | .code body, h => Step.mem_failuresAll_of_parts body h
  | .literal _, h | .symbol _, h | .deferred _, h | .name _, h | .previous, h => by cases h

theorem Arg.mem_failuresAll {e : Error} : ∀ args : List Arg, .fail e ∈ Arg.partsAll args → e ∈ Arg.failuresAll args
  | [], h => by cases h
  | arg :: rest, h => by
    rcases List.mem_append.1 h with h | h
    · exact List.mem_append_left _ (Arg.mem_failures arg h)
    · exact List.mem_append_right _ (Arg.mem_failuresAll rest h)

end

namespace Script

open Draft

variable {P : Error → Prop} (hP : ∀ e, e.isCollision = false → P e) {registry : Registry}

include hP

/-- Composing steps and sections fails only for reasons that are no collision. -/
theorem raises_closed : SectionClosed Symbol.Any (Raises P : DraftM Unit → Prop) where
  done := raises_pure ()
  seq hx hy := hx.bind fun _ => hy
  read h := raises_get.bind fun d => h d fun _ _ _ => trivial
  change _ := raises_modify _
  raise _ := raises_throw (hP _ rfl)
  leave h := (raises_rethrow h _).bind fun _ => raises_modify _
  block h := raises_get.bind fun _ => (raises_modify _).bind fun _ =>
    ((raises_rethrow h _).bind fun _ => raises_modify _).bind fun _ => raises_modify _
  sections _ := raises_modify _
  leaving h := raises_rethrow h _
  unmatched := raises_throw (hP _ rfl)
  pastEnd := raises_throw (hP _ rfl)

/-- **A script fails with what it holds**, or for a reason that is no collision. -/
theorem run_raises (hreg : ∀ i ∈ registry, ∀ e ∈ Step.failuresAll i.script, P e) {script : Script}
    (h : ∀ e ∈ Step.failuresAll script, P e) : Raises P (Script.run registry script) := by
  have hparts : ∀ script : Script, (∀ e ∈ Step.failuresAll script, P e) → ∀ part ∈ Step.partsAll script,
      part.Names Symbol.Any ∧ ∀ e, part = .fail e → Raises P (throw e : DraftM Unit) := by
    intro script hscript part hpart
    refine ⟨part.names_any, ?_⟩
    rintro e rfl
    exact raises_throw (hscript e (Step.mem_failuresAll_of_parts script hpart))
  exact runAt_sectionClosed (raises_closed hP) (raises_throw (hP _ rfl)) (fun i hi => hparts _ (hreg i hi)) maxDepth ""
    (hparts script h)

end Script

namespace Folder

variable {P : Error → Prop} (hP : ∀ e, e.isCollision = false → P e)

theorem apply_registry (folder : Folder) (edit : Edit) : (folder.apply edit).2.registry = folder.registry := by
  unfold apply
  dsimp only
  split <;> rfl

include hP

theorem apply_raises {folder : Folder} {edit : Edit} {e : Error}
    (hreg : ∀ i ∈ folder.registry, ∀ e ∈ Step.failuresAll i.script, P e)
    (hedit : ∀ e ∈ Step.failuresAll edit.script, P e) (h : (folder.apply edit).1 = .error e) : P e := by
  unfold apply at h
  dsimp only at h
  split at h
  · cases h
    exact hP _ rfl
  · exact (Script.run_raises hP hreg hedit).of_run_error trivial h

/-- **Edits fail with what their scripts hold**, or for a reason that is no collision. -/
theorem applyAll_raises (edits : List Edit) : ∀ {folder : Folder} {e : Error},
    (∀ i ∈ folder.registry, ∀ e ∈ Step.failuresAll i.script, P e) →
    (∀ edit ∈ edits, ∀ e ∈ Step.failuresAll edit.script, P e) →
    folder.applyAll edits = .error e → P e := by
  induction edits with
  | nil =>
    intro folder e _ _ h
    cases h
  | cons edit rest ih =>
    intro folder e hreg hedits h
    have hsame := apply_registry folder edit
    have happly := @apply_raises P hP folder edit
    rw [applyAll] at h
    cases hr : folder.apply edit with
    | mk result folder' =>
      rw [hr] at h hsame happly
      cases result with
      | error e' =>
        cases h
        exact happly hreg (hedits edit (by simp)) rfl
      | ok _ =>
        refine ih ?_ (fun x hx => hedits x (List.mem_cons_of_mem _ hx)) h
        rw [hsame]
        exact hreg

end Folder

end ClientGen
