import ClientGen.Proofs.Mentions
import ClientGen.Proofs.Outline

/-!
# The outline of what a plan emits

* `Outline.sketch`: the parts of an outline that matter, found by how blocks begin.
* `Sheet.Shows`: what is to be seen of the outline of a plan that succeeds. There is one rule for each way of
  composing plans.
* `Sheet.Writes`, `Sheet.Keeps`: the whole outline, and a sketch of it.
* `Edit.Keeps`: the same for what an edit adds to its file.
-/

namespace ClientGen

/-! ### Sketches -/

/-- How much of a block is kept in a sketch. -/
inductive Detail where
  /-- What is kept of the lines below. -/
  | inside
  /-- The first line, and what is kept of the lines below. -/
  | heading
  | whole
deriving DecidableEq

namespace Outline

mutual

/-- What is kept of an outline, given how much to keep of a block by its first line. Lines outside of blocks that
are kept as a whole are left out. -/
def sketch (detail : String → Detail) : Outline → List Outline
  | .block head body =>
    match detail head with
    | .inside => sketchAll detail body
    | .heading => [.block head (sketchAll detail body)]
    | .whole => [.block head body]
  | _ => []

def sketchAll (detail : String → Detail) : List Outline → List Outline
  | [] => []
  | o :: rest => sketch detail o ++ sketchAll detail rest

end

theorem sketchAll_eq (detail : String → Detail) (os : List Outline) :
    sketchAll detail os = os.flatMap (sketch detail) := by
  induction os with
  | nil => rfl
  | cons o os ih => rw [sketchAll, ih, List.flatMap_cons]

theorem sketch_inside {detail : String → Detail} {head : String} (h : detail head = .inside) (os : List Outline) :
    sketch detail (.block head os) = os.flatMap (sketch detail) := by
  rw [sketch, h, ← sketchAll_eq]

theorem sketch_heading {detail : String → Detail} {head : String} (h : detail head = .heading) (os : List Outline) :
    sketch detail (.block head os) = [.block head (os.flatMap (sketch detail))] := by
  rw [sketch, h, ← sketchAll_eq]

theorem sketch_whole {detail : String → Detail} {head : String} (h : detail head = .whole) (os : List Outline) :
    sketch detail (.block head os) = [.block head os] := by
  rw [sketch, h]

end Outline

namespace Detail

def opens (head word : String) : Bool := word.toList.isPrefixOf head.toList

/-- The blocks to keep by the words that they begin with. -/
def ofWords (headings wholes : List String) (head : String) : Detail :=
  if headings.any (opens head) then .heading
  else if wholes.any (opens head) then .whole
  else .inside

theorem opens_append {lead word : String} (h : opens lead word = true) (rest : String) :
    opens (lead ++ rest) word = true := by
  unfold opens at h ⊢
  rw [String.toList_append]
  rw [List.isPrefixOf_iff_prefix] at h ⊢
  exact h.trans (List.prefix_append _ _)

/-- The words differ before either ends. -/
def apart : List Char → List Char → Bool
  | c :: cs, d :: ds => c != d || apart cs ds
  | _, _ => false

theorem not_isPrefixOf_of_apart : ∀ {word lead : List Char} (rest : List Char), apart word lead = true →
    word.isPrefixOf (lead ++ rest) = false
  | c :: cs, d :: ds, rest, h => by
    unfold apart at h
    rw [List.cons_append, List.isPrefixOf_cons_cons]
    rcases Bool.or_eq_true_iff.1 h with hne | hrest
    · rw [bne_iff_ne] at hne
      rw [beq_false_of_ne hne]
      rfl
    · rw [not_isPrefixOf_of_apart rest hrest, Bool.and_false]
  | [], _, _, h => by cases h
  | _ :: _, [], _, h => by cases h

theorem not_any_opens {words : List String} {lead : String} (rest : String)
    (h : words.all (fun word => apart word.toList lead.toList) = true) : words.any (opens (lead ++ rest)) = false := by
  refine List.any_eq_false.2 fun word hword => Bool.eq_false_iff.1 ?_
  unfold opens
  rw [String.toList_append]
  exact not_isPrefixOf_of_apart _ (List.all_eq_true.1 h word hword)

theorem any_opens {words : List String} {lead : String} (rest : String) (h : words.any (opens lead) = true) :
    words.any (opens (lead ++ rest)) = true := by
  obtain ⟨word, hword, hopens⟩ := List.any_eq_true.1 h
  exact List.any_eq_true.2 ⟨word, hword, opens_append hopens rest⟩

theorem ofWords_inside {headings wholes : List String} {lead : String} (rest : String)
    (h : (headings ++ wholes).all (fun word => apart word.toList lead.toList) = true) :
    ofWords headings wholes (lead ++ rest) = .inside := by
  rw [List.all_append, Bool.and_eq_true_iff] at h
  unfold ofWords
  rw [not_any_opens rest h.1, not_any_opens rest h.2]
  rfl

theorem ofWords_heading {headings wholes : List String} {lead : String} (rest : String)
    (h : headings.any (opens lead) = true) : ofWords headings wholes (lead ++ rest) = .heading := by
  unfold ofWords
  rw [any_opens rest h]
  rfl

theorem ofWords_whole {wholes : List String} {lead : String} (rest : String)
    (h : wholes.any (opens lead) = true) : ofWords [] wholes (lead ++ rest) = .whole := by
  unfold ofWords
  rw [any_opens rest h]
  rfl

end Detail

/-- Does the template take arguments of these kinds, and begin with none of the words? -/
def Template.avoids (words : List String) (template : String) (kinds : List Fit) : Bool :=
  takes template kinds && words.all fun word => Detail.apart word.toList (lead template).toList

/-! ### Plans -/

/-- A module that is written: the context of the run, the interceptors, and the name of the module. -/
structure Sheet where
  cx : Context
  registry : Registry
  ns : String

namespace Sheet

open Context Script

variable {p : Sheet} {α β γ δ : Type} {look : Outline → List δ} {shown shown' : List δ}

/-- **What is known of a plan that succeeds**: what it emits has an outline of which `shown` is to be seen. -/
def Shows (p : Sheet) (look : Outline → List δ) (x : Plan Step α) (shown : List δ) : Prop :=
  p.cx.Ensures x fun out _ _ => ∃ os, Renders p.registry p.ns out os ∧ os.flatMap look = shown

/-- The plan emits the outline. -/
@[reducible] def Writes (p : Sheet) (x : Plan Step α) (os : List Outline) : Prop := p.Shows (fun o => [o]) x os

/-- What is kept of the outline in a sketch. -/
@[reducible] def Keeps (p : Sheet) (detail : String → Detail) (x : Plan Step α) (kept : List Outline) : Prop :=
  p.Shows (Outline.sketch detail) x kept

/-- The plan has a known result, and emits nothing that is to be seen. -/
def Computes (p : Sheet) (x : Plan Step α) (a : α) : Prop :=
  p.cx.Ensures x fun out b _ => Renders p.registry p.ns out [] ∧ b = a

/-- The plan emits an expression. -/
def Expresses (p : Sheet) (x : Plan Step Unit) (s : String) : Prop :=
  p.cx.Ensures x fun out _ _ => ∃ template args, out = [.inline template args] ∧
    Template.text? p.ns template args = some s

theorem shows_pure (a : α) : p.Shows look (pure a : Plan Step α) [] := by
  intro t b ht hx
  exact ⟨ht, .refl t, [], renders_nil, rfl⟩

theorem shows_emit {step : Step} {os : List Outline} (h : Renders p.registry p.ns [step] os) :
    p.Shows look (Plan.emit step) (os.flatMap look) := by
  intro t a ht hx
  exact ⟨ht, .refl t, os, h, rfl⟩

theorem Shows.congr {x : Plan Step α} (h : p.Shows look x shown) (heq : shown = shown') : p.Shows look x shown' :=
  heq ▸ h

theorem Shows.seq {x : Plan Step α} {f : α → Plan Step β} (hx : p.Shows look x shown)
    (hf : ∀ a, p.Shows look (f a) shown') : p.Shows look (x >>= f) (shown ++ shown') := by
  refine Ensures.bind hx fun out a t h => ?_
  obtain ⟨os, hos, hshown⟩ := h
  refine (hf a).mono fun out' b t' _ h' _ => ?_
  obtain ⟨os', hos', hshown'⟩ := h'
  refine ⟨os ++ os', hos.append hos', ?_⟩
  rw [List.flatMap_append, hshown, hshown']

theorem Shows.onlyIf {c : Bool} {x : Plan Step Unit} (h : p.Shows look x shown) :
    p.Shows look (Plan.onlyIf c x) (if c then shown else []) := by
  cases c with
  | true => exact h
  | false => exact shows_pure ()

theorem shows_forM {bs : List β} {f : β → Plan Step PUnit} {one : β → List δ}
    (h : ∀ b ∈ bs, p.Shows look (f b) (one b)) : p.Shows look (bs.forM f) (bs.flatMap one) := by
  induction bs with
  | nil => exact shows_pure PUnit.unit
  | cons b bs ih =>
    exact (h b List.mem_cons_self).seq fun _ => ih fun c hc => h c (List.mem_cons_of_mem _ hc)

theorem Shows.within {look' : Outline → List γ} {inner : List γ} {body : Plan Step Unit} {wrap : Script → Step}
    (h : p.Shows look' body inner)
    (hwrap : ∀ out os, Renders p.registry p.ns out os → os.flatMap look' = inner →
      ∃ os', Renders p.registry p.ns [wrap out] os' ∧ os'.flatMap look = shown) :
    p.Shows look (Plan.within body wrap) shown := by
  intro t a ht hx
  unfold Plan.within at hx ⊢
  cases hr : (body t).result with
  | error e =>
    simp only [hr] at hx
    cases hx
  | ok b =>
    simp only [hr]
    obtain ⟨hs, hg, os, hos, hinner⟩ := h t b ht hr
    exact ⟨hs, hg, hwrap _ os hos hinner⟩

theorem Shows.scope {body : Plan Step Unit} {place : Section} (h : p.Shows look body shown)
    (hplace : p.registry.forSection place = []) : p.Shows look (Plan.scope place body) shown :=
  h.within fun _ os hos hshown => ⟨os, hos.scope hplace, hshown⟩

/-! ### Results -/

theorem Computes.pure {x : Plan Step α} {a : α} {b : β} (h : p.Computes x a) (g : α → β) (hb : g a = b) :
    p.Computes (do return g (← x)) b := by
  refine Ensures.bind h fun out a' t h => ?_
  obtain ⟨hout, rfl⟩ := h
  intro t b' ht hx
  cases hx
  exact ⟨ht, .refl t, fun _ => ⟨hout.append renders_nil, hb⟩⟩

theorem computes_reference (here : String) (s : Symbol) : p.Computes (Plan.reference here s) (s.textIn here) := by
  intro t b ht hx
  cases hx
  exact ⟨ht, .refl t, renders_importSymbol s, rfl⟩

theorem Shows.given {x : Plan Step α} {a : α} {f : α → Plan Step β} (hx : p.Computes x a)
    (h : p.Shows look (f a) shown) : p.Shows look (x >>= f) shown := by
  refine Ensures.bind hx fun out b t hb => ?_
  obtain ⟨hout, rfl⟩ := hb
  refine h.mono fun out' c t' _ hc _ => ?_
  obtain ⟨os, hos, hshown⟩ := hc
  exact ⟨os, hout.append hos, hshown⟩

theorem Computes.shows {x : Plan Step α} {a : α} (h : p.Computes x a) : p.Shows look x [] :=
  Ensures.mono h fun _ _ _ _ hout => ⟨[], hout.1, rfl⟩

/-! ### Whole outlines -/

section Whole

variable {template s : String} {args : List Arg} {os : List Outline} {body : Plan Step Unit}

theorem Writes.view {x : Plan Step α} (h : p.Writes x os) : p.Shows look x (os.flatMap look) := by
  refine Ensures.mono h fun out a t _ hout => ?_
  obtain ⟨os', hos', heq⟩ := hout
  rw [List.flatMap_singleton'] at heq
  exact ⟨os', hos', heq ▸ rfl⟩

theorem writes_emit {step : Step} (h : Renders p.registry p.ns [step] os) : p.Writes (Plan.emit step) os :=
  (shows_emit h).congr (List.flatMap_singleton' os)

theorem writes_line (h : Template.text? p.ns template args = some s) :
    p.Writes (Plan.line template args) [.line s] :=
  writes_emit (renders_line h)

theorem writes_newline : p.Writes Plan.newline [.line ""] := writes_emit renders_newline

theorem Writes.within {wrap : Script → Step} {wrapped : List Outline} (h : p.Writes body os)
    (hwrap : ∀ out, Renders p.registry p.ns out os → Renders p.registry p.ns [wrap out] wrapped) :
    p.Writes (Plan.within body wrap) wrapped := by
  refine Shows.within h fun out os' hos' heq => ?_
  rw [List.flatMap_singleton'] at heq
  exact ⟨wrapped, hwrap out (heq ▸ hos'), List.flatMap_singleton' wrapped⟩

theorem Writes.block (h : p.Writes body os)
    (hhead : Template.text? p.ns template args = some s) :
    p.Writes (Plan.block template args body) [.block s os] :=
  h.within fun _ hout => hout.block hhead

theorem expresses_inline (h : Template.text? p.ns template args = some s) :
    p.Expresses (Plan.inline template args) s := by
  intro t a ht hx
  exact ⟨ht, .refl t, template, args, rfl, h⟩

theorem Expresses.line {front back : String} {parts : Piece → List Piece} (h : p.Expresses body s)
    (hpieces : ∀ piece arg, arg.piece? p.ns .code = some piece →
      Template.pieces? p.ns template (args ++ [arg]) = some (parts piece))
    (hparts : ∀ d : Draft, (parts (.code s)).foldl Draft.putPiece d = ((d.put front).putCode s).put back) :
    p.Writes (Plan.lineWith template args body) [.code front s back] := by
  intro t a ht hx
  unfold Plan.lineWith Plan.within at hx ⊢
  cases hr : (body t).result with
  | error e =>
    simp only [hr] at hx
    cases hx
  | ok b =>
    simp only [hr]
    obtain ⟨hs, hg, inner, innerArgs, hout, htext⟩ := h t b ht hr
    refine ⟨hs, hg, [.code front s back], ?_, rfl⟩
    rw [hout]
    refine renders_code (hpieces (.code s) (.code [.inline inner innerArgs]) ?_) hparts
    show (Template.text? p.ns inner innerArgs).map Piece.code = _
    rw [htext]
    rfl

end Whole

/-! ### Sketches of plans -/

section Sketches

variable {detail : String → Detail} {headings wholes : List String} {os kept : List Outline} {template s : String}
  {args : List Arg} {body : Plan Step Unit} {declarator : Declarator} {name : String}

theorem keeps_newline : p.Keeps detail Plan.newline [] := shows_emit renders_newline

theorem keeps_separate : p.Keeps detail Plan.separate [] := keeps_newline.seq fun _ => keeps_newline

theorem keeps_docs (text : String) : p.Keeps detail (Plan.docs text) [] := shows_emit (renders_docs text)

theorem keeps_leadingDocs (text : Option String) : p.Keeps detail (Plan.leadingDocs text) [] := by
  unfold Plan.leadingDocs
  split
  · exact (keeps_docs _).seq fun _ => keeps_newline
  · exact shows_pure ()

theorem keeps_trailingDocs (text : Option String) : p.Keeps detail (Plan.trailingDocs text) [] := by
  unfold Plan.trailingDocs
  split
  · exact keeps_docs _
  · exact shows_pure ()

theorem keeps_importSymbol (s : Symbol) : p.Keeps detail (Plan.emit (.importSymbol s)) [] :=
  shows_emit (renders_importSymbol s)

-- Of lines nothing is kept, but they have to have a text, and so do the first lines of blocks that are not kept. That
-- their arguments fit is seen by reading the template.

theorem keeps_line (h : Template.takes template (args.map Arg.fit) = true) :
    p.Keeps detail (Plan.line template args) [] := by
  obtain ⟨rest, htext⟩ := Template.text?_of_takes p.ns h
  exact shows_emit (renders_line htext)

theorem keeps_defineLine (h : Template.takes (declarator.lead ++ "$L" ++ template) (.text :: args.map Arg.fit) = true) :
    p.Keeps detail (Plan.defineLine declarator name template args) [] := by
  have hfit : (Arg.literal name :: args).map Arg.fit = .text :: args.map Arg.fit := rfl
  obtain ⟨rest, htext⟩ := Template.text?_of_takes p.ns (hfit ▸ h)
  exact shows_emit (renders_defineLine htext)

theorem Writes.whole (h : p.Writes body os) (hdetail : detail s = .whole)
    (hhead : Template.text? p.ns template args = some s) :
    p.Keeps detail (Plan.block template args body) [.block s os] := by
  refine (h.block hhead).view.congr ?_
  rw [List.flatMap_singleton, Outline.sketch_whole hdetail]

theorem Keeps.heading {wrap : Script → Step} (h : p.Keeps detail body kept)
    (hwrap : ∀ out os, Renders p.registry p.ns out os → Renders p.registry p.ns [wrap out] [.block s os])
    (hdetail : detail s = .heading) :
    p.Keeps detail (Plan.within body wrap) [.block s kept] := by
  refine h.within fun out os hos hkept => ⟨[.block s os], hwrap out os hos, ?_⟩
  rw [List.flatMap_singleton, Outline.sketch_heading hdetail, hkept]

/-- A block that shows only what is below it. -/
theorem Keeps.inside {wrap : Script → Step} (h : p.Keeps detail body kept)
    (hwrap : ∀ out os, Renders p.registry p.ns out os → Renders p.registry p.ns [wrap out] [.block s os])
    (hdetail : detail s = .inside) : p.Keeps detail (Plan.within body wrap) kept := by
  refine h.within fun out os hos hkept => ⟨[.block s os], hwrap out os hos, ?_⟩
  rw [List.flatMap_singleton, Outline.sketch_inside hdetail, hkept]

theorem Keeps.block (hhead : Template.avoids (headings ++ wholes) template (args.map Arg.fit) = true)
    (h : p.Keeps (.ofWords headings wholes) body kept) :
    p.Keeps (.ofWords headings wholes) (Plan.block template args body) kept := by
  obtain ⟨htakes, hwords⟩ := Bool.and_eq_true_iff.1 hhead
  obtain ⟨rest, htext⟩ := Template.text?_of_takes p.ns htakes
  exact h.inside (fun _ _ hout => hout.block htext) (Detail.ofWords_inside rest hwords)

theorem Keeps.define (hhead : Template.avoids (headings ++ wholes) (declarator.lead ++ "$L" ++ template)
      (.text :: args.map Arg.fit) = true) (h : p.Keeps (.ofWords headings wholes) body kept) :
    p.Keeps (.ofWords headings wholes) (Plan.define declarator name template args body) kept := by
  obtain ⟨htakes, hwords⟩ := Bool.and_eq_true_iff.1 hhead
  have hfit : (Arg.literal name :: args).map Arg.fit = .text :: args.map Arg.fit := rfl
  obtain ⟨rest, htext⟩ := Template.text?_of_takes p.ns (hfit ▸ htakes)
  exact h.inside (fun _ _ hout => hout.define htext) (Detail.ofWords_inside rest hwords)

end Sketches

end Sheet

/-! ### Edits -/

namespace Edit

/-- The edit is for the file that declares the symbol. -/
def At (e : Edit) (s : Symbol) : Prop := s.file = some e.path ∧ e.ns = s.ns

/-- Carrying out the edit in a draft of its module writes the outline; beyond it only imports and dependencies
change. -/
def Writes (registry : Registry) (e : Edit) (os : List Outline) : Prop :=
  ∀ d : Draft, d.ns = e.ns → ∃ imports dependencies,
    (Script.run registry e.script).run d = (.ok (), (d.putOutlines os).withUse imports dependencies)

/-- What is kept of the outline that the edit writes. -/
def Keeps (registry : Registry) (detail : String → Detail) (e : Edit) (kept : List Outline) : Prop :=
  ∃ os, e.Writes registry os ∧ os.flatMap (Outline.sketch detail) = kept

end Edit

theorem Sheet.Keeps.edit {cx : Context} {registry : Registry} {detail : String → Detail} {s : Symbol}
    {body : Plan Step Unit} {kept : List Outline} (h : Sheet.Keeps ⟨cx, registry, s.ns⟩ detail body kept) :
    cx.Ensures (Plan.edit s body) fun out _ _ => ∃ e, out = [e] ∧ e.At s ∧ e.Keeps registry detail kept := by
  unfold Plan.edit
  split
  · next path hpath =>
    intro t a ht hx
    unfold Plan.editFile Plan.within at hx ⊢
    cases hr : (body t).result with
    | error e =>
      simp only [hr] at hx
      cases hx
    | ok b =>
      simp only [hr]
      obtain ⟨hs, hg, os, hos, hkept⟩ := h t b ht hr
      exact ⟨hs, hg, _, rfl, ⟨hpath, rfl⟩, os, fun d hd => (hos _ _).run d hd, hkept⟩
  · exact Context.ensures_fail _

end ClientGen
