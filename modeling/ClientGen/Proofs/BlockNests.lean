import ClientGen.Proofs.Outline
import Mathlib.Data.List.Forall2

/-!
# Nests of blocks

Some scripts write nothing but plain text and blocks that do the same. What such a script writes is a nest: a sequence
of texts and blocks, each with a nest of its own. It is computed without a draft, and carrying out the script comes to
writing the nest.

* `Script.runSteps_weaves`: such a script writes its nest.
-/

namespace ClientGen

/-- A text, or a block of texts and blocks. -/
inductive Nest where
  | text (s : String)
  | block (body : List Nest)

/-- A text or a block in a format. -/
def Format.nest? : Format → Nest → Option Nest
  | .literal, .text s => some (.text s)
  | .string, .text s => some (.text (Text.quote s))
  | .code, .block body => some (.block body)
  | _, _ => none

namespace Template

/-- The arguments after one of them has been written: a block is used up. -/
def useNest (args : Nat → Option Nest) (i : Nat) : Nat → Option Nest := fun j =>
  match args j with
  | some (.block body) => if j = i then none else some (.block body)
  | arg => arg

/-- What tokens write whose arguments are texts and blocks; `next` is the number of arguments taken in turn so far. -/
def nestTokens? (args : Nat → Option Nest) : Nat → List Token → Option (List Nest)
  | _, [] => some []
  | next, .text s :: rest => (nestTokens? args next rest).map (.text s :: ·)
  | next, .dollar :: rest => (nestTokens? args next rest).map (.text "$" :: ·)
  | _, .named _ _ :: _ => none
  | next, .argument .next format :: rest =>
    ((args next).bind format.nest?).bind fun n => (nestTokens? (useNest args next) (next + 1) rest).map (n :: ·)
  | next, .argument (.position p) format :: rest =>
    ((args (p - 1)).bind format.nest?).bind fun n => (nestTokens? (useNest args (p - 1)) next rest).map (n :: ·)

/-- What a template writes whose arguments are texts and blocks. -/
def nest? (template : String) (args : List Nest) : Option (List Nest) :=
  let checked : Except TemplateError (List Token) := do
    let ts ← parse template
    checkArity template ts args.length
    return ts
  match checked with
  | .ok ts => nestTokens? (fun i => args[i]?) 0 ts
  | .error _ => none

end Template

mutual

/-- What a step writes that writes texts and blocks only; `previous` is the text that is replaced. -/
def Step.nest? (previous : String) : Step → Option (List Nest)
  | .line template args => ((Arg.nests? previous args).bind (Template.nest? template)).map (· ++ [.text "\n"])
  | .inline template args => (Arg.nests? previous args).bind (Template.nest? template)
  | .newline => some [.text "\n"]
  | _ => none

/-- What a script of such steps writes. -/
def Script.nest? (previous : String) : List Step → Option (List Nest)
  | [] => some []
  | step :: rest => (Step.nest? previous step).bind fun ns => (Script.nest? previous rest).map (ns ++ ·)

/-- An argument that is plain text or a block of such steps. -/
def Arg.nest? (previous : String) : Arg → Option Nest
  | .literal s => some (.text s)
  | .name s => some (.text s.name)
  | .previous => some (.text previous)
  | .code body => (Script.nest? previous body).map .block
  | _ => none

def Arg.nests? (previous : String) : List Arg → Option (List Nest)
  | [] => some []
  | arg :: rest => (Arg.nest? previous arg).bind fun n => (Arg.nests? previous rest).map (n :: ·)

end

namespace Draft

mutual

/-- Writes a text or a block. -/
def putNest (d : Draft) : Nest → Draft
  | .text s => d.put s
  | .block body => endCode d.text.size d.blockIndent (putNests d.beginCode body)

def putNests (d : Draft) : List Nest → Draft
  | [] => d
  | n :: rest => putNests (putNest d n) rest

end

theorem putNests_append (d : Draft) (ns more : List Nest) : d.putNests (ns ++ more) = (d.putNests ns).putNests more := by
  induction ns generalizing d with
  | nil => rfl
  | cons n ns ih => exact ih (d.putNest n)

/-- The action writes the nest, and does nothing else. -/
def Weaves (act : DraftM Unit) (ns : List Nest) : Prop := ∀ d, act.run d = (.ok (), d.putNests ns)

theorem weaves_put (s : String) : Weaves (modify fun d => d.put s) [.text s] := fun _ => rfl

theorem weaves_done : Weaves (pure ()) [] := fun _ => rfl

theorem Weaves.seq {x y : DraftM Unit} {ns more : List Nest} (hx : Weaves x ns) (hy : Weaves y more) :
    Weaves (x >>= fun _ => y) (ns ++ more) := by
  intro d
  rw [run_bind, hx d]
  dsimp only
  rw [hy, putNests_append]

theorem Weaves.runBlock {act : DraftM Unit} {body : List Nest} (h : Weaves act body) :
    Weaves (runBlock act) [.block body] := by
  intro d
  rw [run_runBlock, run_bind, run_andThen, h]
  rfl

/-- The slot is the text or the block. -/
inductive Slot.Holds : Slot → Nest → Prop
  | text (s : String) : Holds (.literal s) (.text s)
  | block {act : DraftM Unit} {body : List Nest} (h : Weaves act body) : Holds (.block act) (.block body)

theorem Slot.Holds.putSlot {slot : Slot} {n m : Nest} {format : Format} (h : slot.Holds n) (template : String)
    (hm : format.nest? n = some m) : Weaves (putSlot template slot format) [m] := by
  cases h with
  | text s =>
    cases format with
    | literal =>
      cases hm
      exact weaves_put s
    | string =>
      cases hm
      exact weaves_put _
    | type => cases hm
    | code => cases hm
  | block h =>
    cases format with
    | code =>
      cases hm
      exact h.runBlock
    | _ => cases hm

theorem holds_useSlot {slots : List Slot} {args : Nat → Option Nest}
    (h : ∀ i n, args i = some n → (slots.getD i .spent).Holds n) (i : Nat) :
    ∀ j n, Template.useNest args i j = some n → ((useSlot slots i).getD j .spent).Holds n := by
  intro j n hn
  have hargs : args j = some n ∧ (j = i → ∀ body, n ≠ .block body) := by
    unfold Template.useNest at hn
    split at hn
    · next body hbody =>
      split at hn
      · cases hn
      · next hne =>
        cases hn
        exact ⟨hbody, fun hji => absurd hji hne⟩
    · next hnone => exact ⟨hn, fun _ body heq => hnone body (by rw [hn, heq])⟩
  have hslot := h j n hargs.1
  have hsame : (useSlot slots i).getD j .spent = slots.getD j .spent := by
    unfold useSlot
    split
    · next act hact =>
      by_cases hji : j = i
      · -- the slot that is used up was a block, and is not among those that are left
        subst hji
        rw [List.getD_eq_getElem?_getD, hact] at hslot
        cases hslot
        exact absurd rfl (hargs.2 rfl _)
      · rw [List.getD_eq_getElem?_getD, List.getD_eq_getElem?_getD, List.getElem?_set_ne (Ne.symm hji)]
    · rfl
  rw [hsame]
  exact hslot

theorem putTokens_weaves (template : String) : ∀ {ts : List Template.Token} {next : Nat} {slots : List Slot}
    {args : Nat → Option Nest} {ns : List Nest}, (∀ i n, args i = some n → (slots.getD i .spent).Holds n) →
    Template.nestTokens? args next ts = some ns → Weaves (putTokens template next slots ts) ns := by
  intro ts
  induction ts with
  | nil =>
    rintro next slots args ns - ⟨⟩
    exact weaves_done
  | cons token rest ih =>
    intro next slots args ns hargs h
    cases token with
    | text s =>
      obtain ⟨more, hmore, rfl⟩ := Option.map_eq_some_iff.1 h
      exact (weaves_put s).seq (ih hargs hmore)
    | dollar =>
      obtain ⟨more, hmore, rfl⟩ := Option.map_eq_some_iff.1 h
      exact (weaves_put "$").seq (ih hargs hmore)
    | named name format => cases h
    | argument index format =>
      have hone : ∀ i next', ((args i).bind format.nest?).bind
          (fun n => (Template.nestTokens? (Template.useNest args i) next' rest).map (n :: ·)) = some ns →
          Weaves (putSlot template (slots.getD i .spent) format >>= fun _ =>
            putTokens template next' (useSlot slots i) rest) ns := by
        intro i next' h
        obtain ⟨m, hm, h⟩ := Option.bind_eq_some_iff.1 h
        obtain ⟨n, hn, hformat⟩ := Option.bind_eq_some_iff.1 hm
        obtain ⟨more, hmore, rfl⟩ := Option.map_eq_some_iff.1 h
        exact ((hargs i n hn).putSlot template hformat).seq (ih (holds_useSlot hargs i) hmore)
      cases index with
      | next => exact hone next (next + 1) h
      | position p => exact hone (p - 1) next h

theorem expand_weaves {template : String} {slots : List Slot} {args ns : List Nest}
    (hslots : List.Forall₂ Slot.Holds slots args) (h : Template.nest? template args = some ns) : Weaves (expand template slots) ns := by
  have hargs : ∀ i n, args[i]? = some n → (slots.getD i .spent).Holds n := by
    clear h
    induction hslots with
    | nil => exact fun i n hn => absurd hn (by simp)
    | cons hfirst _ ih =>
      intro i n hn
      cases i with
      | zero =>
        cases hn
        exact hfirst
      | succ i => exact ih i n hn
  unfold Template.nest? at h
  unfold expand
  rw [hslots.length_eq]
  dsimp only at h ⊢
  generalize (do
    let ts ← Template.parse template
    Template.checkArity template ts args.length
    return ts : Except TemplateError (List Template.Token)) = checked at h ⊢
  cases checked with
  | ok ts => exact putTokens_weaves template hargs h
  | error e => cases h

end Draft

open Draft

namespace Script

variable {registry : Registry} {run : RunScript} {previous : String}

mutual

theorem runStep_weaves : ∀ (step : Step) {ns : List Nest}, Step.nest? previous step = some ns →
    Weaves (runStep registry run previous step) ns
  | .line template args, ns, h => by
    obtain ⟨front, hfront, rfl⟩ := Option.map_eq_some_iff.1 h
    obtain ⟨nests, hnests, hfront⟩ := Option.bind_eq_some_iff.1 hfront
    exact (expand_weaves (slots_hold args hnests) hfront).seq (weaves_put "\n")
  | .inline template args, ns, h => by
    obtain ⟨nests, hnests, h⟩ := Option.bind_eq_some_iff.1 h
    exact expand_weaves (slots_hold args hnests) h
  | .newline, ns, h => by
    cases h
    exact weaves_put "\n"

/-- **A script of texts and blocks writes its nest.** -/
theorem runSteps_weaves : ∀ (script : Script) {ns : List Nest}, Script.nest? previous script = some ns →
    Weaves (runSteps registry run previous script) ns
  | [], ns, h => by
    cases h
    exact weaves_done
  | step :: rest, ns, h => by
    obtain ⟨front, hfront, h⟩ := Option.bind_eq_some_iff.1 h
    obtain ⟨more, hmore, rfl⟩ := Option.map_eq_some_iff.1 h
    exact (runStep_weaves step hfront).seq (runSteps_weaves rest hmore)

theorem slot_holds : ∀ (arg : Arg) {n : Nest}, Arg.nest? previous arg = some n → (slot registry run previous arg).Holds n
  | .literal s, n, h => by
    cases h
    exact .text s
  | .name s, n, h => by
    cases h
    exact .text s.name
  | .previous, n, h => by
    cases h
    exact .text previous
  | .code body, n, h => by
    obtain ⟨ns, hns, rfl⟩ := Option.map_eq_some_iff.1 h
    exact .block (runSteps_weaves body hns)

theorem slots_hold : ∀ (args : List Arg) {ns : List Nest}, Arg.nests? previous args = some ns →
    List.Forall₂ Slot.Holds (slots registry run previous args) ns
  | [], ns, h => by
    cases h
    exact .nil
  | arg :: rest, ns, h => by
    obtain ⟨n, hn, h⟩ := Option.bind_eq_some_iff.1 h
    obtain ⟨more, hmore, rfl⟩ := Option.map_eq_some_iff.1 h
    exact .cons (slot_holds arg hn) (slots_hold rest hmore)

end

end Script

end ClientGen
