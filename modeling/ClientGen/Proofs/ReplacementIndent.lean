import ClientGen.Proofs.LiteralText
import ClientGen.Proofs.SectionStages

/-!
# Replacements indent again

A replacement is given the text of its section as it stands in the draft, with the indentation of its lines. What
it writes is indented like all text. So a replacement that writes its section back as it was indents it twice.

* `Draft.Reached.lined`: in these the state of the line is the one that the text shows.
* `Draft.indented_indented`: text that is indented twice is indented by twice as much.
* `Script.replace_indents_again`: what such a replacement leaves, and when that is what it was given.
-/

namespace ClientGen

namespace Draft

/-! ### Indentation -/

/-- How many lines that are not empty begin among the characters; `start` tells whether the first one begins a
line. -/
def lineStarts : Bool → List Char → Nat
  | _, [] => 0
  | start, c :: rest => if c = '\n' then lineStarts true rest else (if start then 1 else 0) + lineStarts false rest

theorem indented_newline (lead : Nat) (start : Bool) (cs : List Char) :
    indented lead start ('\n' :: cs) = '\n' :: indented lead true cs := if_pos rfl

theorem indented_char (lead : Nat) (start : Bool) {c : Char} (hc : c ≠ '\n') (cs : List Char) :
    indented lead start (c :: cs) = (if start then List.replicate lead ' ' else []) ++ c :: indented lead false cs :=
  if_neg hc

theorem lineStarts_newline (start : Bool) (cs : List Char) : lineStarts start ('\n' :: cs) = lineStarts true cs :=
  if_pos rfl

theorem lineStarts_char (start : Bool) {c : Char} (hc : c ≠ '\n') (cs : List Char) :
    lineStarts start (c :: cs) = (if start then 1 else 0) + lineStarts false cs := if_neg hc

theorem length_indented (lead : Nat) (start : Bool) (cs : List Char) :
    (indented lead start cs).length = cs.length + lead * lineStarts start cs := by
  induction cs generalizing start with
  | nil => rfl
  | cons c rest ih =>
    by_cases hc : c = '\n'
    · subst hc
      rw [indented_newline, lineStarts_newline, List.length_cons, List.length_cons, ih]
      omega
    · rw [indented_char _ _ hc, lineStarts_char _ hc, List.length_append, List.length_cons, List.length_cons, ih,
        Nat.mul_add]
      cases start with
      | true =>
        rw [if_pos rfl, if_pos rfl, List.length_replicate]
        omega
      | false =>
        rw [if_neg Bool.false_ne_true, if_neg Bool.false_ne_true, List.length_nil]
        omega

theorem indented_of_no_start (lead : Nat) (start : Bool) (cs : List Char) (h : lineStarts start cs = 0) :
    indented lead start cs = cs := by
  induction cs generalizing start with
  | nil => rfl
  | cons c rest ih =>
    by_cases hc : c = '\n'
    · subst hc
      rw [lineStarts_newline] at h
      rw [indented_newline, ih true h]
    · rw [lineStarts_char _ hc] at h
      rw [indented_char _ _ hc, ih false (by omega)]
      cases start with
      | true =>
        rw [if_pos rfl] at h
        omega
      | false => rfl

theorem indented_replicate (lead n : Nat) (cs : List Char) :
    indented lead false (List.replicate n ' ' ++ cs) = List.replicate n ' ' ++ indented lead false cs := by
  induction n with
  | zero => rfl
  | succ n ih =>
    rw [List.replicate_succ, List.cons_append, List.cons_append, ← ih]
    exact indented_char lead false (by decide) _

theorem indented_spaces (lead : Nat) {c : Char} (hc : c ≠ '\n') (cs : List Char) :
    indented lead true (List.replicate lead ' ' ++ c :: cs) = List.replicate (2 * lead) ' ' ++ c :: indented lead false cs := by
  cases lead with
  | zero => exact indented_char 0 true hc cs
  | succ n =>
    have hspaces : List.replicate (2 * (n + 1)) ' ' = List.replicate (n + 1) ' ' ++ List.replicate (n + 1) ' ' := by
      rw [List.replicate_append_replicate, Nat.two_mul]
    have hfirst : indented (n + 1) true (List.replicate (n + 1) ' ' ++ c :: cs) =
        List.replicate (n + 1) ' ' ++ ' ' :: indented (n + 1) false (List.replicate n ' ' ++ c :: cs) :=
      indented_char (n + 1) true (by decide) _
    have hchar : indented (n + 1) false (c :: cs) = c :: indented (n + 1) false cs := indented_char (n + 1) false hc cs
    rw [hfirst, indented_replicate, hchar, hspaces, List.append_assoc]
    rfl

/-- **Text that is indented twice is indented by twice as much.** -/
theorem indented_indented (lead : Nat) (start : Bool) (cs : List Char) :
    indented lead start (indented lead start cs) = indented (2 * lead) start cs := by
  induction cs generalizing start with
  | nil => rfl
  | cons c rest ih =>
    by_cases hc : c = '\n'
    · subst hc
      rw [indented_newline, indented_newline, indented_newline, ih]
    · rw [indented_char lead start hc, indented_char (2 * lead) start hc, ← ih]
      cases start with
      | true => exact indented_spaces lead hc _
      | false => exact indented_char lead false hc _

theorem indented_eq_iff (lead : Nat) (start : Bool) (cs : List Char) :
    indented (2 * lead) start cs = indented lead start cs ↔ lead = 0 ∨ lineStarts start cs = 0 := by
  constructor
  · intro h
    have hlength := congrArg List.length h
    rw [length_indented, length_indented, Nat.mul_assoc] at hlength
    rw [← Nat.mul_eq_zero]
    omega
  · rintro (rfl | h)
    · rfl
    · rw [indented_of_no_start _ start cs h, indented_of_no_start _ start cs h]

/-! ### The state of the line -/

/-- The drafts that can come about: from an empty one, by the changes that carrying out scripts makes. -/
inductive Reached : Draft → Prop where
  | new (ns package : String) : Reached { ns, package }
  | put {d : Draft} (s : String) : Reached d → Reached (d.put s)
  | record {d : Draft} (imports : Imports) (dependencies : List Dependency) :
      Reached d → Reached { d with imports, dependencies }
  | putValue {d : Draft} (key : String) (value : ContextValue) : Reached d → Reached (d.putValue key value)
  | indent {d : Draft} (indent : Nat) : Reached d → Reached { d with indent }
  | blockIndent {d : Draft} (blockIndent : Nat) : Reached d → Reached { d with blockIndent }
  | openScope {d : Draft} (place : Option Section) : Reached d → Reached (d.openScope place)
  | restartScope {d : Draft} : Reached d → Reached d.restartScope
  | closeScope {d : Draft} : Reached d → Reached d.closeScope
  | dropLineEnd {d : Draft} (start : Nat) : Reached d → Reached (dropLineEnd start d).resetLine
  | truncate {d : Draft} (size : Nat) : Reached d → Reached (d.truncate size).resetLine

/-- The state of the line is the one that the text shows. -/
def Lined (d : Draft) : Prop := d.atLineStart = (lastLine d.text d.text.size == 0)

variable {d : Draft}

theorem lastLine_beq_zero (text : ByteArray) (n : Nat) :
    (lastLine text n == 0) = (n == 0 || text[n - 1]? == some 0x0a) := by
  cases n with
  | zero => rfl
  | succ n =>
    rw [lastLine, Nat.add_sub_cancel]
    cases h : text[n]? == some 0x0a
    · rw [if_neg Bool.false_ne_true]
      rfl
    · rw [if_pos rfl]
      rfl

theorem indented_singleton (lead : Nat) (start : Bool) (c : Char) : ∃ front, indented lead start [c] = front ++ [c] := by
  by_cases hc : c = '\n'
  · subst hc
    exact ⟨[], indented_newline lead start []⟩
  · exact ⟨_, indented_char lead start hc []⟩

theorem lined_putChar (d : Draft) (c : Char) : Lined (d.putChar c) := by
  obtain ⟨front, hfront⟩ := indented_singleton d.lead d.atLineStart c
  have htext := putChar_text d c
  rw [hfront, List.utf8Encode_append, List.utf8Encode_singleton, ← ByteArray.append_assoc] at htext
  have hne : String.utf8EncodeChar c ≠ [] := by
    rw [← List.length_pos_iff, String.length_utf8EncodeChar]
    exact Char.utf8Size_pos c
  have hsize : (d.putChar c).text.size ≠ 0 := by
    rw [htext, ByteArray.size_append, List.size_toByteArray]
    have := List.length_pos_iff.2 hne
    omega
  have hlast := getElem?_last (b := d.text ++ front.utf8Encode) hne
  rw [← htext] at hlast
  unfold Lined
  rw [lastLine_beq_zero, hlast, putChar_atLineStart, beq_eq_false_iff_ne.2 hsize, Bool.false_or]
  by_cases hc : c = '\n'
  · subst hc
    rfl
  · have hbyte : (String.utf8EncodeChar c).getLast? ≠ some 0x0a := fun h => hc (eq_newline_of_getLast? h)
    rw [decide_eq_false hc, beq_eq_false_iff_ne.2 hbyte]

theorem Lined.put (h : Lined d) (s : String) : Lined (d.put s) := by
  unfold Draft.put
  induction s.toList generalizing d with
  | nil => exact h
  | cons c cs ih => exact ih (lined_putChar d c)

/-- **In a draft that can come about, the state of the line is the one that the text shows.** -/
theorem Reached.lined (h : Reached d) : Lined d := by
  induction h with
  | new ns package => rfl
  | put s _ ih => exact ih.put s
  | record imports dependencies _ ih => exact ih
  | putValue key value _ ih =>
    unfold Draft.putValue
    split <;> exact ih
  | indent indent _ ih => exact ih
  | blockIndent blockIndent _ ih => exact ih
  | openScope place _ ih => exact ih
  | restartScope _ ih =>
    unfold Draft.restartScope
    split <;> exact ih
  | closeScope _ ih =>
    unfold Draft.closeScope
    split <;> exact ih
  | dropLineEnd start _ _ => rfl
  | truncate size _ _ => rfl

/-! ### Scripts leave drafts that can come about -/

theorem reached_law : Law fun d d' => Reached d → Reached d' where
  refl _ h := h
  trans h h' hd := h' (h hd)
  put _ s h := h.put s
  record _ imports dependencies h := h.record imports dependencies
  putValue _ key value h := h.putValue key value
  indent _ indent h := h.indent indent
  block hact d hd := by
    obtain ⟨left, heq, hleft⟩ := runBlock_leaves _ d
    have hreached : Reached left := by
      rw [heq]
      exact (hact _ (hd.blockIndent _)).blockIndent _
    rcases hleft with hleft | hleft
    · rw [hleft]
      exact hreached
    · rw [hleft]
      exact hreached.dropLineEnd _

theorem reached_section {f : Draft → Draft} (hf : SectionChange f) (d : Draft) (h : Reached d) : Reached (f d) := by
  cases hf with
  | openScope place => exact h.openScope place
  | restartScope => exact h.restartScope
  | closeScope => exact h.closeScope
  | replace start => exact h.truncate start

end Draft

open Draft

namespace Script

/-- **Scripts leave drafts that can come about.** -/
theorem runAt_reached (registry : Registry) (depth : Nat) (previous : String) (script : Script) {d : Draft}
    (h : d.Reached) : ((runAt registry depth previous script).run d).2.Reached :=
  runAt_sectionClosed (reached_law.sectionClosed reached_section) (reached_law.keeps_throw _)
    (fun _ _ part _ => ⟨part.names_any, fun _ _ => reached_law.keeps_throw _⟩) depth previous
    (fun part _ => ⟨part.names_any, fun _ _ => reached_law.keeps_throw _⟩) d h

/-! ### Writing a section back -/

/-- A replacement that writes its section back as it was given. -/
def keeper (s : Section) (priority : Int) : Interceptor :=
  { place := s, priority, action := .replace, script := [.inline "$L" [.previous]] }

theorem keeper_literal (s : Section) (priority : Int) (text : String) :
    (keeper s priority).script.literal? text = some text := by
  have htemplate : Template.literal? "$L" [text] = some (text ++ "") := rfl
  show ((some [text]).bind (Template.literal? "$L")).bind (fun s => some (s ++ "")) = some text
  rw [Option.bind_some, htemplate, Option.bind_some, String.append_empty, String.append_empty]

variable {registry : Registry} {s : Section}

theorem forSection_append (h : ∀ i ∈ registry, i.place ≠ s) (more : Registry) :
    Registry.forSection (registry ++ more) s = more.forSection s := by
  have hfilter : (registry.filter fun i => i.place == s) = [] := by
    rw [List.filter_eq_nil_iff]
    intro i hi
    rw [beq_iff_eq]
    exact h i hi
  unfold Registry.forSection
  rw [List.filter_append, hfilter, List.nil_append]

theorem scripts_none (h : ∀ i ∈ registry, i.place ≠ s) (a : Action) : registry.scripts s a = [] := by
  have hnone := forSection_append h []
  rw [List.append_nil] at hnone
  unfold Registry.scripts
  rw [hnone, Registry.forSection, List.filter_nil, List.mergeSort_nil]
  rfl

theorem scripts_keeper (h : ∀ i ∈ registry, i.place ≠ s) (priority : Int) (a : Action) :
    Registry.scripts (registry ++ [keeper s priority]) s a =
      if a = .replace then [(keeper s priority).script] else [] := by
  have hone : [keeper s priority].filter (fun i => i.place == s) = [keeper s priority] :=
    List.filter_cons_of_pos (beq_self_eq_true s)
  unfold Registry.scripts
  rw [forSection_append h, Registry.forSection, hone, List.mergeSort_singleton]
  cases a <;> rfl

variable {run : RunScript} {act : DraftM Unit} {text : String} {d d₁ : Draft}

theorem inScope_puts (hact : Puts act text) (hprepend : registry.scripts s .prepend = [])
    (happend : registry.scripts s .append = [])
    (hreplace : ((registry.scripts s .replace).forM (replaceFrom run d.text.size)).run
      ((d.openScope (some s)).restartScope.put text) = (.ok (), d₁)) :
    (inScope registry run (some s) act).run d = (.ok (), d₁.closeScope) := by
  have hin : Inside d (some s) d.text ((d.openScope (some s)).restartScope.put text) :=
    (inside_openScope d (some s)).restart.step (within_put _ text)
  have hpush : (pushSection registry run (some s)).run d = (.ok (), (d.openScope (some s)).restartScope) :=
    run_pushSection_ok.2 ⟨d.openScope (some s), by rw [hprepend]; rfl, rfl⟩
  have hpop : (popSection registry run).run ((d.openScope (some s)).restartScope.put text) = (.ok (), d₁.closeScope) :=
    (run_popSection_ok hin).2 ⟨d₁, d₁, hreplace, by rw [happend]; rfl, rfl⟩
  exact run_bind_ok.2 ⟨(), _, hpush, run_bind_ok.2 ⟨(), _, run_leaving_ok.2 (hact _), hpop⟩⟩

theorem put_lead (d : Draft) (s : String) : (d.put s).lead = d.lead := by
  obtain ⟨text, atLineStart, column, h⟩ := put_frame d s
  rw [h]
  rfl

/-- What the replacement leaves: the text that it is given, indented once more. -/
theorem replace_keeper {lead : Nat} {start : Bool} {base : ByteArray} (hrun : Puts (run text [.inline "$L" [.previous]]) text)
    (htext : d.text = base ++ text.toUTF8) (hlead : d.lead = lead) (hstart : (lastLine base base.size == 0) = start) :
    ∃ left, (List.forM [[.inline "$L" [.previous]]] (replaceFrom run base.size)).run d = (.ok (), left) ∧
      left.text = base ++ (String.ofList (indented lead start text.toList)).toUTF8 := by
  refine ⟨{ d with text := base }.resetLine.put text, ?_, ?_⟩
  · refine run_bind_ok.2 ⟨(), _, ?_, rfl⟩
    rw [run_replaceFrom htext]
    exact hrun _
  · rw [put_text, ← hlead, ← hstart]
    rfl

/-- **A replacement that writes its section back indents it once more.** So the text is what it would be without
the replacement exactly if nothing is indented here, or no line that is not empty begins in the section. -/
theorem replace_indents_again (s : Section) (registry : Registry) (hregistry : ∀ i ∈ registry, i.place ≠ s)
    (priority : Int) (body : Script) (previous text : String) (hbody : body.literal? previous = some text)
    (depth : Nat) (d : Draft) (hd : d.Reached) :
    ∃ plain kept : Draft,
      (runAt registry (depth + 2) previous [.scope (some s) body]).run d = (.ok (), plain) ∧
      (runAt (registry ++ [keeper s priority]) (depth + 2) previous [.scope (some s) body]).run d = (.ok (), kept) ∧
      plain.text = d.text ++ (String.ofList (indented d.lead d.atLineStart text.toList)).toUTF8 ∧
      kept.text = d.text ++ (String.ofList (indented (2 * d.lead) d.atLineStart text.toList)).toUTF8 ∧
      (kept.text = plain.text ↔ d.lead = 0 ∨ lineStarts d.atLineStart text.toList = 0) := by
  -- the draft with the section's own text
  have hown : ((d.openScope (some s)).restartScope.put text).text =
      d.text ++ (String.ofList (indented d.lead d.atLineStart text.toList)).toUTF8 := put_text _ text
  have hlead : ((d.openScope (some s)).restartScope.put text).lead = d.lead := put_lead _ text
  have hplain : (runAt registry (depth + 2) previous [.scope (some s) body]).run d =
      (.ok (), ((d.openScope (some s)).restartScope.put text).closeScope) := by
    refine (run_singleton registry (runAt registry (depth + 1)) previous (.scope (some s) body) d).trans ?_
    refine inScope_puts (runSteps_puts hbody) (scripts_none hregistry _) (scripts_none hregistry _) ?_
    rw [scripts_none hregistry]
    rfl
  have hputs : ∀ given, Puts (runAt (registry ++ [keeper s priority]) (depth + 1) given [.inline "$L" [.previous]]) given :=
    fun given => runSteps_puts (keeper_literal s priority given)
  obtain ⟨left, hleft, hagain⟩ := replace_keeper (hputs _) hown hlead hd.lined.symm
  have hkept : (runAt (registry ++ [keeper s priority]) (depth + 2) previous [.scope (some s) body]).run d =
      (.ok (), left.closeScope) := by
    refine (run_singleton _ (runAt _ (depth + 1)) previous (.scope (some s) body) d).trans ?_
    refine inScope_puts (runSteps_puts hbody) (scripts_keeper hregistry priority _) (scripts_keeper hregistry priority _) ?_
    rw [scripts_keeper hregistry]
    exact hleft
  rw [String.toList_ofList, indented_indented] at hagain
  refine ⟨_, left.closeScope, hplain, hkept, ?_, ?_, ?_⟩
  · rw [closeScope_text, hown]
  · rw [closeScope_text, hagain]
  · rw [closeScope_text, closeScope_text, hown, hagain, ByteArray.append_right_inj, String.toUTF8_eq_toByteArray,
      String.toUTF8_eq_toByteArray, String.toByteArray_inj, String.ofList_inj]
    exact indented_eq_iff _ _ _

/-- A draft one level of indentation deep. -/
def indentedDraft : Draft := ((Script.run [] [.indent]).run { ns := "", package := "" }).2

theorem replace_indents_again_deeper : ∃ plain kept : Draft,
    (runAt [] 2 "" [.scope (some .serviceErrors) [.line "x" []]]).run indentedDraft = (.ok (), plain) ∧
    (runAt [keeper .serviceErrors 0] 2 "" [.scope (some .serviceErrors) [.line "x" []]]).run indentedDraft =
      (.ok (), kept) ∧
    plain.text = "    x\n".toUTF8 ∧ kept.text = "        x\n".toUTF8 ∧ kept.text ≠ plain.text := by
  have hreached : indentedDraft.Reached := runAt_reached [] maxDepth "" [.indent] (.new "" "")
  obtain ⟨plain, kept, hplain, hkept, hplaintext, hkepttext, hiff⟩ := replace_indents_again .serviceErrors []
    (by decide) 0 [.line "x" []] "" "x\n" rfl 0 indentedDraft hreached
  refine ⟨plain, kept, hplain, hkept, hplaintext, hkepttext, fun h => ?_⟩
  have hnone := hiff.1 h
  revert hnone
  decide

end Script

end ClientGen
