import ClientGen.Proofs.LiteralText
import ClientGen.Proofs.ScopedState

/-!
# Outlines

The text of a script as lines, each with the lines that stand deeper below it. An outline is what is left of a
script when its templates are filled in; the imports that the text needs are no part of it.

* `Draft.putOutlines`: writes an outline.
-/

namespace ClientGen

inductive Outline where
  | line (text : String)
  /-- A line with an expression in it. -/
  | code (front code back : String)
  | docs (text : String)
  /-- A line, and lines one level deeper. -/
  | block (head : String) (body : List Outline)

namespace Draft

/-! ### Changes to the text -/

/-- The text of the draft with its indentation and line, put in another draft. -/
def onto (d r : Draft) : Draft :=
  { r with
    text := d.text, indent := d.indent, blockIndent := d.blockIndent, atLineStart := d.atLineStart, column := d.column }

/-- The draft with other imports and dependencies. -/
def withUse (d : Draft) (imports : Imports) (dependencies : List Dependency) : Draft :=
  { d with imports, dependencies }

/-- The change depends on the text alone and changes nothing else, the indentation included. -/
structure Writing (f : Draft → Draft) : Prop where
  onto : ∀ d r, f (d.onto r) = (f d).onto r
  indent : ∀ d, (f d).indent = d.indent
  blockIndent : ∀ d, (f d).blockIndent = d.blockIndent

variable {f g : Draft → Draft}

theorem Writing.id : Writing fun d => d := ⟨fun _ _ => rfl, fun _ => rfl, fun _ => rfl⟩

theorem Writing.comp (hf : Writing f) (hg : Writing g) : Writing fun d => g (f d) where
  onto d r := by rw [hf.onto, hg.onto]
  indent d := by rw [hg.indent, hf.indent]
  blockIndent d := by rw [hg.blockIndent, hf.blockIndent]

/-- All but the text stays as it was. -/
theorem Writing.rest (hf : Writing f) (d : Draft) : f d = (f d).onto d := hf.onto d d

theorem Writing.withUse (hf : Writing f) (d : Draft) (i : Imports) (e : List Dependency) :
    f (d.withUse i e) = (f d).withUse i e := by
  have h := hf.onto d (d.withUse i e)
  rw [hf.rest d]
  exact h

theorem Writing.ns (hf : Writing f) (d : Draft) : (f d).ns = d.ns := by
  rw [hf.rest d]
  rfl

theorem writing_putChar (c : Char) : Writing fun d => d.putChar c := by
  have hlead : ∀ d r : Draft, (d.onto r).lead = d.lead := fun _ _ => rfl
  refine ⟨fun d r => ?_, fun d => ?_, fun d => ?_⟩
  · unfold putChar
    by_cases hc : c = '\n'
    · rw [if_pos hc, if_pos hc]
      rfl
    · rw [if_neg hc, if_neg hc]
      show (if d.atLineStart then _ else _) = _
      split
      · rw [hlead]
        rfl
      · rfl
  · unfold putChar
    split
    · rfl
    · split <;> rfl
  · unfold putChar
    split
    · rfl
    · split <;> rfl

theorem writing_put (s : String) : Writing fun d => d.put s := by
  unfold put
  induction s.toList with
  | nil => exact Writing.id
  | cons c cs ih => exact (writing_putChar c).comp ih

theorem writing_putDocs (s : String) : Writing fun d => d.putDocs s := by
  unfold putDocs
  cases Text.trimChars s.toList with
  | nil => exact Writing.id
  | cons c cs => exact writing_put _

/-- What is done at the end of a block of code that began at the offset `start`: see `runBlock`. -/
def endCode (start blockIndent : Nat) (d : Draft) : Draft := (dropLineEnd start { d with blockIndent }).resetLine

/-- What is done at its beginning. -/
def beginCode (d : Draft) : Draft := { d with blockIndent := d.blockIndent + d.column }

/-- Writes an expression as a block of code: its lines after the first stand at the column where it begins. -/
def putCode (d : Draft) (s : String) : Draft := endCode d.text.size d.blockIndent (d.beginCode.put s)

theorem endCode_onto (start blockIndent : Nat) (d r : Draft) :
    endCode start blockIndent (d.onto r) = (endCode start blockIndent d).onto r := by
  unfold endCode dropLineEnd
  dsimp only
  show (if start < d.text.size && d.text[d.text.size - 1]? == some 0x0a then _ else _ : Draft).resetLine = _
  split <;> rfl

theorem endCode_withUse (start blockIndent : Nat) (d : Draft) (i : Imports) (e : List Dependency) :
    endCode start blockIndent (d.withUse i e) = (endCode start blockIndent d).withUse i e := by
  unfold endCode dropLineEnd
  dsimp only
  show (if start < d.text.size && d.text[d.text.size - 1]? == some 0x0a then _ else _ : Draft).resetLine = _
  split <;> rfl

theorem endCode_indents (start blockIndent : Nat) (d : Draft) :
    (endCode start blockIndent d).indent = d.indent ∧ (endCode start blockIndent d).blockIndent = blockIndent := by
  unfold endCode dropLineEnd
  dsimp only
  split <;> exact ⟨rfl, rfl⟩

theorem writing_putCode (s : String) : Writing fun d => d.putCode s where
  onto d r := by
    have hbegin : (d.onto r).beginCode = d.beginCode.onto r := rfl
    unfold putCode
    rw [hbegin, (writing_put s).onto, endCode_onto]
    rfl
  indent d := (endCode_indents _ _ _).1.trans ((writing_put s).indent _)
  blockIndent _ := (endCode_indents _ _ _).2

/-- A change one level deeper. -/
def deeper (f : Draft → Draft) (d : Draft) : Draft := { f { d with indent := d.indent + 1 } with indent := d.indent }

theorem Writing.deeper (hf : Writing f) : Writing (deeper f) where
  onto d r := by
    have honto := hf.onto { d with indent := d.indent + 1 } r
    show { f ({ d with indent := d.indent + 1 }.onto r) with indent := d.indent } = _
    rw [honto]
    rfl
  indent _ := rfl
  blockIndent d := hf.blockIndent { d with indent := d.indent + 1 }

mutual

/-- Writes an outline. -/
def putOutline (d : Draft) : Outline → Draft
  | .line text => (d.put text).put "\n"
  | .code front code back => (((d.put front).putCode code).put back).put "\n"
  | .docs text => d.putDocs text
  | .block head body => deeper (fun d => putOutlines d body) ((d.put head).put "\n")

def putOutlines (d : Draft) : List Outline → Draft
  | [] => d
  | o :: rest => putOutlines (putOutline d o) rest

end

mutual

theorem writing_putOutline : ∀ o : Outline, Writing fun d => d.putOutline o
  | .line text => (writing_put text).comp (writing_put "\n")
  | .code front code back =>
    (((writing_put front).comp (writing_putCode code)).comp (writing_put back)).comp (writing_put "\n")
  | .docs text => writing_putDocs text
  | .block head body =>
    ((writing_put head).comp (writing_put "\n")).comp (writing_putOutlines body).deeper

theorem writing_putOutlines : ∀ os : List Outline, Writing fun d => d.putOutlines os
  | [] => Writing.id
  | o :: rest => (writing_putOutline o).comp (writing_putOutlines rest)

end

theorem putOutlines_append (os more : List Outline) (d : Draft) :
    d.putOutlines (os ++ more) = (d.putOutlines os).putOutlines more := by
  induction os generalizing d with
  | nil => rfl
  | cons o os ih => exact ih (d.putOutline o)

/-! ### Actions -/

/-- In the module `ns` the action succeeds and changes the text in the given way. Beyond that it changes imports
and dependencies only. -/
structure Draws (ns : String) (act : DraftM Unit) (f : Draft → Draft) : Prop where
  writing : Writing f
  run : ∀ d, d.ns = ns → ∃ i e, act.run d = (.ok (), (f d).withUse i e)

variable {ns : String} {x y : DraftM Unit}

theorem Draws.seq (hx : Draws ns x f) (hy : Draws ns y g) : Draws ns (x >>= fun _ => y) fun d => g (f d) where
  writing := hx.writing.comp hy.writing
  run d hd := by
    obtain ⟨i, e, hrun⟩ := hx.run d hd
    have hns : ((f d).withUse i e).ns = ns := (hx.writing.ns d).trans hd
    obtain ⟨i', e', hrun'⟩ := hy.run _ hns
    refine ⟨i', e', ?_⟩
    rw [run_bind, hrun]
    dsimp only
    rw [hrun', hy.writing.withUse]
    rfl

theorem draws_done : Draws ns (pure ()) fun d => d := ⟨Writing.id, fun d _ => ⟨d.imports, d.dependencies, rfl⟩⟩

theorem Writing.draws (hf : Writing f) : Draws ns (modify f) f :=
  ⟨hf, fun d _ => ⟨(f d).imports, (f d).dependencies, rfl⟩⟩

theorem draws_importSymbol (s : Symbol) : Draws ns (modify fun d => d.importSymbol s) fun d => d := by
  refine ⟨Writing.id, fun d _ => ?_⟩
  obtain ⟨i, e, h⟩ := importSymbol_record d s
  exact ⟨i, e, congrArg (Prod.mk (Except.ok ())) h⟩

theorem draws_mention (s : Symbol) : Draws ns (modify fun d => d.mention s) fun d => d.put (s.textIn ns) := by
  refine ⟨writing_put _, fun d hd => ?_⟩
  obtain ⟨i, e, h⟩ := importSymbol_record d s
  refine ⟨i, e, ?_⟩
  have hnamed : d.importSymbol s = d.withUse i e := h
  rw [← (writing_put _).withUse, ← hnamed, ← hd]
  rfl

theorem draws_mentionDeferred (s : Symbol) :
    Draws ns (modify fun d => d.mentionDeferred s) fun d => d.put ("\"" ++ s.textIn ns ++ "\"") := by
  refine ⟨writing_put _, fun d hd => ?_⟩
  obtain ⟨i, e, h⟩ := importSymbol_record d s
  refine ⟨i, e, ?_⟩
  have hnamed : d.importSymbol s = d.withUse i e := h
  rw [← (writing_put _).withUse, ← hnamed, ← hd]
  rfl

theorem Draws.runBlock {s : String} (h : Draws ns x fun d => d.put s) : Draws ns (runBlock x) fun d => d.putCode s := by
  refine ⟨writing_putCode s, fun d hd => ?_⟩
  obtain ⟨i, e, hrun⟩ := h.run { d with blockIndent := d.blockIndent + d.column } hd
  refine ⟨i, e, ?_⟩
  rw [run_runBlock, run_bind, run_andThen, hrun]
  exact congrArg (Prod.mk (Except.ok ())) (endCode_withUse _ _ _ i e)

theorem Draws.deeper (h : Draws ns x f) :
    Draws ns (do
      modify fun d => { d.put "\n" with indent := d.indent + 1 }
      andThen x fun d => { d with indent := d.indent - 1 }) fun d => deeper f (d.put "\n") := by
  refine ⟨(writing_put "\n").comp h.writing.deeper, fun d hd => ?_⟩
  have hns : (d.put "\n").ns = ns := ((writing_put "\n").ns d).trans hd
  obtain ⟨i, e, hrun⟩ := h.run { d.put "\n" with indent := d.indent + 1 } hns
  refine ⟨i, e, ?_⟩
  show (andThen x fun d => { d with indent := d.indent - 1 }).run { d.put "\n" with indent := d.indent + 1 } = _
  rw [run_andThen, hrun]
  have hline : (d.put "\n").indent = d.indent := (writing_put "\n").indent d
  have hback : (f { d.put "\n" with indent := d.indent + 1 }).indent - 1 = d.indent := by
    rw [h.writing.indent, Nat.add_sub_cancel]
  show (Except.ok (), { (f { d.put "\n" with indent := d.indent + 1 }).withUse i e with
    indent := (f { d.put "\n" with indent := d.indent + 1 }).indent - 1 }) = (Except.ok (), Draft.withUse
      { f { d.put "\n" with indent := (d.put "\n").indent + 1 } with indent := (d.put "\n").indent } i e)
  rw [hback, hline]
  rfl

end Draft

open Draft

/-! ### Templates -/

/-- The text of an argument in a format, in the module `ns`. -/
def Arg.text? (ns : String) : Format → Arg → Option String
  | .literal, .literal s => some s
  | .literal, .name s => some s.name
  | .string, .literal s => some (Text.quote s)
  | .string, .name s => some (Text.quote s.name)
  | .type, .symbol s => some (s.textIn ns)
  | .type, .deferred s => some ("\"" ++ s.textIn ns ++ "\"")
  | _, _ => none

namespace Template

/-- The parts of a template that takes its arguments in turn: its own texts, and what `one` makes of an argument. -/
def fill {π : Type} (one : Format → Arg → Option π) (own : String → π) : List Token → List Arg → Option (List π)
  | [], [] => some []
  | .text s :: rest, args => (fill one own rest args).map (own s :: ·)
  | .argument .next format :: rest, arg :: args =>
    (one format arg).bind fun part => (fill one own rest args).map (part :: ·)
  | _, _ => none

theorem arity_of_fill {π : Type} {one : Format → Arg → Option π} {own : String → π} :
    ∀ {ts : List Token} {args : List Arg} {parts : List π}, fill one own ts args = some parts →
      relativeCount ts = args.length ∧ positions ts = [] := by
  intro ts
  induction ts with
  | nil =>
    intro args parts h
    cases args with
    | nil => exact ⟨rfl, rfl⟩
    | cons arg args => cases h
  | cons token rest ih =>
    intro args parts h
    cases token with
    | text s =>
      obtain ⟨more, hmore, -⟩ := Option.map_eq_some_iff.1 h
      exact ih hmore
    | dollar => cases h
    | named name format => cases h
    | argument index format =>
      cases index with
      | position n => cases h
      | next =>
        cases args with
        | nil => cases h
        | cons arg args =>
          obtain ⟨part, -, h⟩ := Option.bind_eq_some_iff.1 h
          obtain ⟨more, hmore, -⟩ := Option.map_eq_some_iff.1 h
          obtain ⟨hcount, hpositions⟩ := ih hmore
          refine ⟨?_, hpositions⟩
          unfold relativeCount at hcount ⊢
          rw [List.countP_cons, hcount]
          rfl

/-- The parts one after another. Nothing stands before the first, so the text of a template unfolds to the sum of
its parts as it is usually written. -/
def concat : List String → String
  | [] => ""
  | part :: parts => parts.foldl (· ++ ·) part

theorem concat_cons (part : String) (parts : List String) : concat (part :: parts) = part ++ concat parts := by
  have hfold : ∀ (parts : List String) (a b : String),
      parts.foldl (· ++ ·) (a ++ b) = a ++ parts.foldl (· ++ ·) b := by
    intro parts
    induction parts with
    | nil => exact fun _ _ => rfl
    | cons c parts ih =>
      intro a b
      rw [List.foldl_cons, List.foldl_cons, String.append_assoc, ih]
  cases parts with
  | nil => exact String.append_empty.symm
  | cons next parts => exact hfold parts part next

/-- The text of a template with its arguments, in the module `ns`. -/
def text? (ns template : String) (args : List Arg) : Option String :=
  match parse template with
  | .ok ts => (fill (Arg.text? ns) id ts args).map concat
  | .error _ => none

end Template

/-- The formats that an argument fits: those of text, or that of a type. -/
inductive Fit where
  | text
  | type
  | other

def Arg.fit : Arg → Fit
  | .literal _ | .name _ => .text
  | .symbol _ | .deferred _ => .type
  | _ => .other

namespace Template

/-- Do arguments of these kinds fit the placeholders, one after another? -/
def fits : List Token → List Fit → Bool
  | [], [] => true
  | .text _ :: rest, kinds => fits rest kinds
  | .argument .next .literal :: rest, .text :: kinds => fits rest kinds
  | .argument .next .string :: rest, .text :: kinds => fits rest kinds
  | .argument .next .type :: rest, .type :: kinds => fits rest kinds
  | _, _ => false

def takes (template : String) (kinds : List Fit) : Bool :=
  match parse template with
  | .ok ts => fits ts kinds
  | .error _ => false

/-- The text before the first placeholder. -/
def lead (template : String) : String :=
  match parse template with
  | .ok (.text s :: _) => s
  | _ => ""

theorem fill_of_fits (ns : String) : ∀ {ts : List Token} {args : List Arg}, fits ts (args.map Arg.fit) = true →
    ∃ parts, fill (Arg.text? ns) id ts args = some parts := by
  intro ts
  induction ts with
  | nil =>
    intro args h
    cases args with
    | nil => exact ⟨[], rfl⟩
    | cons arg args => cases h
  | cons token rest ih =>
    intro args h
    cases token with
    | text s =>
      obtain ⟨parts, hparts⟩ := ih h
      exact ⟨s :: parts, by simp [fill, hparts]⟩
    | dollar => cases h
    | named name format => cases h
    | argument index format =>
      cases index with
      | position n => cases h
      | next =>
        cases args with
        | nil => cases format <;> cases h
        | cons arg args =>
          have hone : ∃ part, arg.text? ns format = some part := by
            cases format <;> cases arg <;> simp_all [fits, Arg.fit, Arg.text?]
          have hmore : fits rest (args.map Arg.fit) = true := by
            cases format <;> cases arg <;> simp_all [fits, Arg.fit]
          obtain ⟨part, hpart⟩ := hone
          obtain ⟨parts, hparts⟩ := ih hmore
          exact ⟨part :: parts, by simp [fill, hpart, hparts]⟩

/-- **A template has a text if its arguments are of the right kinds**, and the text begins like the template. -/
theorem text?_of_takes (ns : String) {template : String} {args : List Arg}
    (h : takes template (args.map Arg.fit) = true) : ∃ rest, text? ns template args = some (lead template ++ rest) := by
  unfold takes at h
  unfold text? lead
  cases hparse : parse template with
  | error e =>
    rw [hparse] at h
    cases h
  | ok ts =>
    rw [hparse] at h
    obtain ⟨parts, hparts⟩ := fill_of_fits ns h
    dsimp only
    rw [hparts]
    split
    · next s rest heq =>
      cases heq
      obtain ⟨more, -, rfl⟩ := Option.map_eq_some_iff.1 hparts
      exact ⟨_, congrArg some (concat_cons s more)⟩
    · exact ⟨concat parts, congrArg some String.empty_append.symm⟩

/-- The same for a part of a template whose length is not known. -/
def Accepts (template : String) (cs : List Char) (kinds : List Fit) : Prop :=
  ∀ fuel, cs.length < fuel → ∃ ts, tokens template fuel cs = .ok ts ∧ fits ts kinds = true

variable {template : String} {cs : List Char} {kinds : List Fit}

theorem accepts_nil : Accepts template [] [] := by
  intro fuel hfuel
  obtain ⟨fuel, rfl⟩ := Nat.exists_eq_succ_of_ne_zero (Nat.ne_zero_of_lt hfuel)
  exact ⟨[], rfl, rfl⟩

theorem Accepts.literal (h : Accepts template cs kinds) : Accepts template ('$' :: 'L' :: cs) (.text :: kinds) := by
  intro fuel hfuel
  obtain ⟨fuel, rfl⟩ := Nat.exists_eq_succ_of_ne_zero (Nat.ne_zero_of_lt hfuel)
  have hrest : cs.length < fuel := by
    simp only [List.length_cons] at hfuel
    omega
  obtain ⟨ts, hts, hfits⟩ := h fuel hrest
  refine ⟨.argument .next .literal :: ts, ?_, hfits⟩
  show (do let more ← tokens template fuel cs; return Token.argument .next .literal :: more) = _
  rw [hts]
  rfl

theorem Accepts.text {c : Char} {text : List Char} (hc : '$' ∉ c :: text) (h : Accepts template ('$' :: cs) kinds) :
    Accepts template (c :: text ++ '$' :: cs) kinds := by
  intro fuel hfuel
  obtain ⟨fuel, rfl⟩ := Nat.exists_eq_succ_of_ne_zero (Nat.ne_zero_of_lt hfuel)
  have hrest : ('$' :: cs).length < fuel := by
    simp only [List.length_cons, List.length_append] at hfuel ⊢
    omega
  obtain ⟨ts, hts, hfits⟩ := h fuel hrest
  have hne : ∀ d ∈ c :: text, (d != '$') = true := fun d hd => bne_iff_ne.2 fun heq => hc (heq ▸ hd)
  refine ⟨.text (String.ofList (c :: text)) :: ts, ?_, hfits⟩
  have hfirst : c ≠ '$' := fun heq => hc (heq ▸ List.mem_cons_self)
  rw [List.cons_append, tokens.eq_4 _ _ _ (by simp) (by simp [hfirst]), ← List.cons_append,
    List.dropWhile_append_of_pos hne, List.takeWhile_append_of_pos hne]
  show (do let more ← tokens template fuel ('$' :: cs); return Token.text (String.ofList (c :: text ++ [])) :: more) = _
  rw [hts, List.append_nil]
  rfl

theorem takes_of_accepts (h : Accepts template template.toList kinds) : takes template kinds = true := by
  obtain ⟨ts, hts, hfits⟩ := h _ (Nat.lt_succ_self _)
  unfold takes parse
  rw [hts]
  exact hfits
end Template

/-- A part of a line. -/
inductive Piece where
  | text (s : String)
  | code (s : String)

/-- The same for an argument that may be an expression. -/
def Arg.piece? (ns : String) : Format → Arg → Option Piece
  | .code, .code [.inline template args] => (Template.text? ns template args).map .code
  | format, arg => (arg.text? ns format).map .text

/-- The parts of a line. -/
def Template.pieces? (ns template : String) (args : List Arg) : Option (List Piece) :=
  match parse template with
  | .ok ts => fill (Arg.piece? ns) .text ts args
  | .error _ => none

namespace Draft

def putPiece (d : Draft) : Piece → Draft
  | .text s => d.put s
  | .code s => d.putCode s

variable {registry : Registry} {run : RunScript} {previous template ns : String}

theorem putSlot_draws {format : Format} {arg : Arg} {s : String} (h : arg.text? ns format = some s) :
    Draws ns (putSlot template (Script.slot registry run previous arg) format) fun d => d.put s := by
  cases format <;> cases arg <;> cases h
  · exact (writing_put _).draws
  · exact (writing_put _).draws
  · exact (writing_put _).draws
  · exact (writing_put _).draws
  · exact draws_mention _
  · exact draws_mentionDeferred _

variable {π : Type} {one : Format → Arg → Option π} {own : String → π} {write : π → Draft → Draft}

theorem drop_useSlot (slots : List Slot) (next : Nat) : (useSlot slots next).drop (next + 1) = slots.drop (next + 1) := by
  unfold useSlot
  split
  · exact List.drop_set_of_lt (Nat.lt_succ_self next)
  · rfl

theorem putTokens_draws (hown : ∀ s, write (own s) = fun d => d.put s)
    (hone : ∀ {format arg part}, one format arg = some part →
      Draws ns (putSlot template (Script.slot registry run previous arg) format) (write part)) :
    ∀ {ts : List Template.Token} {next : Nat} {slots : List Slot} {args : List Arg} {parts : List π},
      slots.drop next = Script.slots registry run previous args → Template.fill one own ts args = some parts →
      Draws ns (putTokens template next slots ts) fun d => parts.foldl (fun d part => write part d) d := by
  intro ts
  induction ts with
  | nil =>
    intro next slots args parts _ h
    cases args with
    | nil =>
      cases h
      exact draws_done
    | cons arg args => cases h
  | cons token rest ih =>
    intro next slots args parts hslots h
    cases token with
    | text s =>
      obtain ⟨more, hmore, rfl⟩ := Option.map_eq_some_iff.1 h
      have hput : Draws ns (modify fun d => d.put s) (write (own s)) := by
        rw [hown]
        exact (writing_put s).draws
      exact hput.seq (ih hslots hmore)
    | dollar => cases h
    | named name format => cases h
    | argument index format =>
      cases index with
      | position n => cases h
      | next =>
        cases args with
        | nil => cases h
        | cons arg args =>
          obtain ⟨part, hpart, h⟩ := Option.bind_eq_some_iff.1 h
          obtain ⟨more, hmore, rfl⟩ := Option.map_eq_some_iff.1 h
          -- the slot that is taken is the argument's, and using it up leaves those after it
          have hslot : slots.getD next .spent = Script.slot registry run previous arg := by
            have hfirst : (slots.drop next)[0]? = some (Script.slot registry run previous arg) := by
              rw [hslots]
              rfl
            rw [List.getElem?_drop, Nat.add_zero] at hfirst
            rw [List.getD_eq_getElem?_getD, hfirst]
            rfl
          have hrest : (useSlot slots next).drop (next + 1) = Script.slots registry run previous args := by
            rw [drop_useSlot, ← List.drop_drop, hslots]
            rfl
          show Draws ns (putSlot template (slots.getD next .spent) format >>= fun _ =>
            putTokens template (next + 1) (useSlot slots next) rest) _
          rw [hslot]
          exact (hone hpart).seq (ih hrest hmore)

theorem slots_length (args : List Arg) : (Script.slots registry run previous args).length = args.length := by
  induction args with
  | nil => rfl
  | cons arg args ih => exact congrArg (· + 1) ih

theorem expand_draws (hown : ∀ s, write (own s) = fun d => d.put s)
    (hone : ∀ {format arg part}, one format arg = some part →
      Draws ns (putSlot template (Script.slot registry run previous arg) format) (write part))
    {ts : List Template.Token} {args : List Arg} {parts : List π} (hparse : Template.parse template = .ok ts)
    (hfill : Template.fill one own ts args = some parts) :
    Draws ns (expand template (Script.slots registry run previous args)) fun d =>
      parts.foldl (fun d part => write part d) d := by
  obtain ⟨hcount, hpositions⟩ := Template.arity_of_fill hfill
  have harity : Template.checkArity template ts (Script.slots registry run previous args).length = .ok () := by
    unfold Template.checkArity
    rw [hpositions, hcount, slots_length]
    simp
  unfold expand
  rw [hparse]
  dsimp only
  show Draws ns (match (do Template.checkArity template ts _; return ts : Except TemplateError _) with
    | .ok ts => putTokens template 0 _ ts
    | .error e => throw (.template e)) _
  rw [harity]
  exact putTokens_draws hown hone rfl hfill

theorem text_draws {args : List Arg} {s : String} (h : Template.text? ns template args = some s) :
    Draws ns (expand template (Script.slots registry run previous args)) fun d => d.put s := by
  unfold Template.text? at h
  split at h
  · next ts hparse =>
    obtain ⟨parts, hparts, rfl⟩ := Option.map_eq_some_iff.1 h
    have hput : (fun d : Draft => d.put (Template.concat parts)) =
        fun d => parts.foldl (fun d part => d.put part) d := by
      funext d
      clear hparts h
      induction parts generalizing d with
      | nil => rfl
      | cons part parts ih => rw [Template.concat_cons, put_append, ih, List.foldl_cons]
    rw [hput]
    exact expand_draws (fun _ => rfl) putSlot_draws hparse hparts
  · cases h

theorem pieces_draws {args : List Arg} {parts : List Piece} (h : Template.pieces? ns template args = some parts) :
    Draws ns (expand template (Script.slots registry run previous args)) fun d => parts.foldl putPiece d := by
  unfold Template.pieces? at h
  split at h
  · next ts hparse =>
    refine expand_draws (fun _ => rfl) ?_ hparse h
    intro format arg part hpart
    unfold Arg.piece? at hpart
    split at hpart
    · obtain ⟨s, hs, rfl⟩ := Option.map_eq_some_iff.1 hpart
      exact ((text_draws hs).seq draws_done).runBlock
    · obtain ⟨s, hs, rfl⟩ := Option.map_eq_some_iff.1 hpart
      exact putSlot_draws hs
  · cases h

end Draft

/-! ### Steps -/

namespace Script

/-- Carrying out the script in the module `ns` writes the outline. -/
def Renders (registry : Registry) (ns : String) (script : Script) (os : List Outline) : Prop :=
  ∀ run previous, Draws ns (runSteps registry run previous script) fun d => d.putOutlines os

variable {registry : Registry} {ns template s : String} {args : List Arg} {script more body : Script} {os os' : List Outline}

theorem renders_nil : Renders registry ns [] [] := fun _ _ => draws_done

theorem runSteps_append (run : RunScript) (previous : String) :
    runSteps registry run previous (script ++ more) =
      (runSteps registry run previous script >>= fun _ => runSteps registry run previous more) := by
  induction script with
  | nil =>
    show _ = ((pure () : DraftM Unit) >>= fun _ => runSteps registry run previous more)
    rw [pure_bind]
    rfl
  | cons step rest ih =>
    show (runStep registry run previous step >>= fun _ => runSteps registry run previous (rest ++ more)) =
      ((runStep registry run previous step >>= fun _ => runSteps registry run previous rest) >>= fun _ => _)
    rw [ih, bind_assoc]

theorem Renders.append (h : Renders registry ns script os) (h' : Renders registry ns more os') :
    Renders registry ns (script ++ more) (os ++ os') := by
  intro run previous
  have hboth := (h run previous).seq (h' run previous)
  rw [runSteps_append]
  simp only [putOutlines_append]
  exact hboth

theorem renders_step {step : Step} (h : ∀ run previous,
    Draws ns (runStep registry run previous step) fun d => d.putOutlines os) : Renders registry ns [step] os := by
  intro run previous
  exact (h run previous).seq draws_done

theorem renders_line (h : Template.text? ns template args = some s) : Renders registry ns [.line template args] [.line s] :=
  renders_step fun _ _ => (text_draws h).seq (writing_put "\n").draws

theorem renders_code {front code back : String} {parts : List Piece} (h : Template.pieces? ns template args = some parts)
    (hparts : ∀ d : Draft, parts.foldl putPiece d = ((d.put front).putCode code).put back) :
    Renders registry ns [.line template args] [.code front code back] := by
  refine renders_step fun run previous => ?_
  have hdraws : Draws ns (expand template (slots registry run previous args)) fun d =>
      ((d.put front).putCode code).put back := by
    simp only [← hparts]
    exact pieces_draws h
  exact hdraws.seq (writing_put "\n").draws

theorem renders_newline : Renders registry ns [.newline] [.line ""] :=
  renders_step fun _ _ => (writing_put "\n").draws

theorem renders_docs (text : String) : Renders registry ns [.docs text] [.docs text] :=
  renders_step fun _ _ => (writing_putDocs text).draws

theorem renders_importSymbol (s : Symbol) : Renders registry ns [.importSymbol s] [] :=
  renders_step fun _ _ => draws_importSymbol s

theorem Renders.block (h : Renders registry ns body os) (hhead : Template.text? ns template args = some s) :
    Renders registry ns [.block template args body] [.block s os] :=
  renders_step fun run previous => (text_draws hhead).seq (h run previous).deeper

theorem Renders.define {declarator : Declarator} {name : String} (h : Renders registry ns body os)
    (hhead : Template.text? ns (declarator.lead ++ "$L" ++ template) (.literal name :: args) = some s) :
    Renders registry ns [.define declarator name template args body] [.block s os] :=
  renders_step fun run previous => Draws.seq (text_draws hhead) (h run previous).deeper

theorem renders_defineLine {declarator : Declarator} {name : String}
    (hhead : Template.text? ns (declarator.lead ++ "$L" ++ template) (.literal name :: args) = some s) :
    Renders registry ns [.define declarator name template args []] [.line s] :=
  renders_step fun _ _ => Draws.seq (text_draws hhead) draws_done.deeper

theorem Renders.scope {place : Section} (h : Renders registry ns body os) (hplace : registry.forSection place = []) :
    Renders registry ns [.scope (some place) body] os := by
  refine renders_step fun run previous => ⟨writing_putOutlines os, fun d hd => ?_⟩
  have hscripts : ∀ action, registry.scripts place action = [] := by
    intro action
    unfold Registry.scripts
    rw [hplace]
    rfl
  let opened := (d.openScope (some place)).restartScope
  have hpush : (pushSection registry run (some place)).run d = (.ok (), opened) := run_pushSection (hscripts .prepend) d
  obtain ⟨i, e, hbody⟩ := (h run previous).run opened hd
  -- the body does not look at the scope
  have htext : opened.putOutlines os = (d.putOutlines os).onto opened := (writing_putOutlines os).onto d opened
  rw [htext] at hbody
  have hpop : (popSection registry run).run (((d.putOutlines os).onto opened).withUse i e) =
      (.ok (), (d.putOutlines os).withUse i e) := by
    rw [run_popSection (List.cons_ne_nil _ _), run_andThen, run_closeSection_at rfl rfl, hscripts, hscripts]
    refine congrArg (Prod.mk (Except.ok ())) ?_
    show Draft.withUse { (d.putOutlines os).onto d with indent := d.indent, blockIndent := d.blockIndent } i e = _
    rw [← (writing_putOutlines os).rest d]
    have hindent : (d.putOutlines os).indent = d.indent := (writing_putOutlines os).indent d
    have hblock : (d.putOutlines os).blockIndent = d.blockIndent := (writing_putOutlines os).blockIndent d
    rw [← hindent, ← hblock]
  refine ⟨i, e, ?_⟩
  show (pushSection registry run (some place) >>= fun _ => leaving (runSteps registry run previous body) >>= fun _ =>
    popSection registry run).run d = _
  exact run_bind_ok.2 ⟨(), opened, hpush, run_bind_ok.2 ⟨(), _, run_leaving_ok.2 hbody, hpop⟩⟩

end Script

end ClientGen
