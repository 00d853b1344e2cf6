import ClientGen.Proofs.DraftText
import ClientGen.Proofs.Triple

/-!
# Steps that write plain text

Some steps write the same text whatever the draft holds: line ends, and templates all of whose arguments are
plain text. For these the text is computed without a draft, and carrying them out appends it.

* `Script.runSteps_puts`: such a script appends its text.
-/

namespace ClientGen

/-- The text that an argument stands for, if it is plain text; `previous` is the text that is replaced. -/
def Arg.literal? (previous : String) : Arg → Option String
  | .literal s => some s
  | .name s => some s.name
  | .previous => some previous
  | _ => none

/-- Plain text in a format. -/
def Format.literal? (s : String) : Format → Option String
  | .literal => some s
  | .string => some (Text.quote s)
  | _ => none

namespace Template

/-- The text of tokens whose arguments are plain text; `next` is the number of arguments taken in turn so far. -/
def literalTokens? (args : List String) : Nat → List Token → Option String
  | _, [] => some ""
  | next, .text s :: rest => (literalTokens? args next rest).map (s ++ ·)
  | next, .dollar :: rest => (literalTokens? args next rest).map ("$" ++ ·)
  | _, .named _ _ :: _ => none
  | next, .argument .next format :: rest =>
    (args[next]?.bind format.literal?).bind fun s => (literalTokens? args (next + 1) rest).map (s ++ ·)
  | next, .argument (.position p) format :: rest =>
    (args[p - 1]?.bind format.literal?).bind fun s => (literalTokens? args next rest).map (s ++ ·)

/-- The text of a template whose arguments are plain text. -/
def literal? (template : String) (args : List String) : Option String :=
  let checked : Except TemplateError (List Token) := do
    let ts ← parse template
    checkArity template ts args.length
    return ts
  match checked with
  | .ok ts => literalTokens? args 0 ts
  | .error _ => none

end Template

/-- The text of a step that writes plain text. -/
def Step.literal? (previous : String) : Step → Option String
  | .line template args =>
    ((args.mapM (Arg.literal? previous)).bind (Template.literal? template)).map (· ++ "\n")
  | .inline template args => (args.mapM (Arg.literal? previous)).bind (Template.literal? template)
  | .newline => some "\n"
  | _ => none

/-- The text of steps that all write plain text. -/
def Script.literal? (previous : String) : Script → Option String
  | [] => some ""
  | step :: rest => (step.literal? previous).bind fun s => (Script.literal? previous rest).map (s ++ ·)

namespace Draft

theorem put_append (d : Draft) (s t : String) : d.put (s ++ t) = (d.put s).put t := by
  unfold put
  rw [String.toList_append, List.foldl_append]

/-- The action appends the text, and does nothing else. -/
def Puts (act : DraftM Unit) (text : String) : Prop := ∀ d, act.run d = (.ok (), d.put text)

theorem puts_put (s : String) : Puts (modify fun d => d.put s) s := fun _ => rfl

theorem puts_done : Puts (pure ()) "" := fun _ => rfl

theorem Puts.seq {x y : DraftM Unit} {s t : String} (hx : Puts x s) (hy : Puts y t) : Puts (x >>= fun _ => y) (s ++ t) := by
  intro d
  rw [run_bind, hx d]
  dsimp only
  rw [hy, put_append]

theorem putSlot_puts (template : String) {format : Format} {s t : String} (h : format.literal? s = some t) :
    Puts (putSlot template (.literal s) format) t := by
  cases format with
  | literal =>
    cases h
    exact puts_put s
  | string =>
    cases h
    exact puts_put _
  | type => cases h
  | code => cases h

theorem useSlot_literal (args : List String) (i : Nat) : useSlot (args.map .literal) i = args.map .literal := by
  unfold useSlot
  rw [List.getElem?_map]
  cases args[i]? with
  | none => rfl
  | some s => rfl

theorem getD_literal {args : List String} {i : Nat} {s : String} (h : args[i]? = some s) :
    (args.map Slot.literal).getD i .spent = .literal s := by
  rw [List.getD_eq_getElem?_getD, List.getElem?_map, h]
  rfl

theorem putTokens_puts (template : String) (args : List String) : ∀ (tokens : List Template.Token) (next : Nat)
    {text : String}, Template.literalTokens? args next tokens = some text →
    Puts (putTokens template next (args.map .literal) tokens) text := by
  intro tokens
  induction tokens with
  | nil =>
    rintro next text ⟨⟩
    exact puts_done
  | cons token rest ih =>
    intro next text h
    cases token with
    | text s =>
      obtain ⟨more, hmore, rfl⟩ := Option.map_eq_some_iff.1 h
      exact (puts_put s).seq (ih next hmore)
    | dollar =>
      obtain ⟨more, hmore, rfl⟩ := Option.map_eq_some_iff.1 h
      exact (puts_put "$").seq (ih next hmore)
    | named name format => cases h
    | argument index format =>
      have hone : ∀ i next', (args[i]?.bind format.literal?).bind
          (fun s => (Template.literalTokens? args next' rest).map (s ++ ·)) = some text →
          Puts (putSlot template ((args.map Slot.literal).getD i .spent) format >>= fun _ =>
            putTokens template next' (useSlot (args.map .literal) i) rest) text := by
        intro i next' h
        obtain ⟨s, hs, h⟩ := Option.bind_eq_some_iff.1 h
        obtain ⟨arg, harg, hformat⟩ := Option.bind_eq_some_iff.1 hs
        obtain ⟨more, hmore, rfl⟩ := Option.map_eq_some_iff.1 h
        rw [getD_literal harg, useSlot_literal]
        exact (putSlot_puts template hformat).seq (ih next' hmore)
      cases index with
      | next => exact hone next (next + 1) h
      | position p => exact hone (p - 1) next h

theorem expand_puts {template : String} {args : List String} {text : String}
    (h : Template.literal? template args = some text) : Puts (expand template (args.map .literal)) text := by
  unfold Template.literal? at h
  unfold expand
  rw [List.length_map]
  dsimp only at h ⊢
  generalize (do
    let ts ← Template.parse template
    Template.checkArity template ts args.length
    return ts : Except TemplateError (List Template.Token)) = checked at h ⊢
  cases checked with
  | ok ts => exact putTokens_puts template args ts 0 h
  | error e => cases h

end Draft

open Draft

namespace Script

variable {registry : Registry} {run : RunScript} {previous : String}

theorem slots_literal : ∀ {args : List Arg} {texts : List String}, args.mapM (Arg.literal? previous) = some texts →
    slots registry run previous args = texts.map .literal := by
  intro args
  induction args with
  | nil =>
    rintro texts ⟨⟩
    rfl
  | cons arg rest ih =>
    intro texts h
    rw [List.mapM_cons] at h
    obtain ⟨text, htext, h⟩ := Option.bind_eq_some_iff.1 h
    obtain ⟨more, hmore, h⟩ := Option.bind_eq_some_iff.1 h
    cases h
    have hslot : slot registry run previous arg = .literal text := by
      cases arg with
      | literal s | name s | previous =>
        cases htext
        rfl
      | symbol s => cases htext
      | deferred s => cases htext
      | code body => cases htext
    show slot registry run previous arg :: slots registry run previous rest = _
    rw [hslot, ih hmore]
    rfl

theorem template_puts {template : String} {args : List Arg} {text : String}
    (h : (args.mapM (Arg.literal? previous)).bind (Template.literal? template) = some text) :
    Puts (expand template (slots registry run previous args)) text := by
  obtain ⟨texts, htexts, h⟩ := Option.bind_eq_some_iff.1 h
  rw [slots_literal htexts]
  exact expand_puts h

theorem runStep_puts {step : Step} {text : String} (h : step.literal? previous = some text) :
    Puts (runStep registry run previous step) text := by
  cases step with
  | line template args =>
    obtain ⟨front, hfront, rfl⟩ := Option.map_eq_some_iff.1 h
    exact (template_puts hfront).seq (puts_put "\n")
  | inline template args => exact template_puts h
  | newline =>
    cases h
    exact puts_put "\n"
  | _ => cases h

/-- **A script of plain text appends its text.** -/
theorem runSteps_puts : ∀ {script : Script} {text : String}, script.literal? previous = some text →
    Puts (runSteps registry run previous script) text := by
  intro script
  induction script with
  | nil =>
    rintro text ⟨⟩
    exact puts_done
  | cons step rest ih =>
    intro text h
    obtain ⟨s, hs, h⟩ := Option.bind_eq_some_iff.1 h
    obtain ⟨more, hmore, rfl⟩ := Option.map_eq_some_iff.1 h
    exact (runStep_puts hs).seq (ih hmore)

end Script

end ClientGen
