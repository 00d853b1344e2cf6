import ClientGen.Proofs.Outline
import ClientGen.Proofs.ReplacementIndent

/-!
# Blocks are spliced into their line

A block is written with its lines moved to the column where it begins, and the state of the line is read off the text
when it ends. If the block is plain text, and the line was begun under the indentation that is in force, this comes to
writing the text with spaces before its lines: writing keeps the state of the line the one that the text shows, so
reading it off changes nothing.

* `Draft.putCode_eq`: a block of plain text is spliced in.
* `Script.block_splices`: the same of the scripts that write plain text.
-/

namespace ClientGen

namespace Text

/-- A line after `n` spaces; an empty one stays empty. -/
def padLine (n : Nat) (line : List Char) : List Char := if line.isEmpty then [] else List.replicate n ' ' ++ line

/-- Lines with `n` spaces before each after the first that is not empty. -/
def hangLines (n : Nat) : List (List Char) → List (List Char)
  | [] => []
  | first :: rest => first :: rest.map (padLine n)

/-- The text with `n` spaces before each line after the first that is not empty. -/
def hang (n : Nat) (cs : List Char) : List Char := ['\n'].intercalate (hangLines n (pieces '\n' cs))

/-- How a text is spliced in at a column: without a line end at its end, and with spaces up to the column before each
line after the first that is not empty. -/
def splice (column : Nat) (s : String) : String := String.ofList (hang column (Draft.withoutLineEnd s.toList))

theorem intercalate_append_cons (sep front l : List Char) (ls : List (List Char)) :
    sep.intercalate ((front ++ l) :: ls) = front ++ sep.intercalate (l :: ls) := by
  cases ls with
  | nil => simp
  | cons l' ls => simp [List.intercalate_cons_cons]

end Text

namespace Draft

open Text

/-! ### Lines after the first -/

/-- Indentation by lines: the first one has it only if it begins a line. -/
theorem indented_lines (n : Nat) (start : Bool) (cs : List Char) : ∃ first rest, pieces '\n' cs = first :: rest ∧
    indented n start cs = ['\n'].intercalate ((if start then padLine n first else first) :: rest.map (padLine n)) := by
  induction cs generalizing start with
  | nil => exact ⟨[], [], rfl, by cases start <;> rfl⟩
  | cons c cs ih =>
    by_cases hc : c = '\n'
    · subst hc
      obtain ⟨first, rest, hpieces, hlines⟩ := ih true
      refine ⟨[], first :: rest, ?_, ?_⟩
      · rw [pieces, if_pos rfl, hpieces]
      · rw [indented_newline, hlines, List.map_cons, List.intercalate_cons_cons]
        cases start <;> rfl
    · obtain ⟨first, rest, hpieces, hlines⟩ := ih false
      refine ⟨c :: first, rest, ?_, ?_⟩
      · rw [pieces, if_neg hc, hpieces]
      · have hfirst : (if start then padLine n (c :: first) else c :: first) =
            ((if start then List.replicate n ' ' else []) ++ [c]) ++ first := by
          cases start <;> simp [padLine]
        rw [indented_char _ _ hc, hlines, hfirst, intercalate_append_cons, List.append_assoc]
        rfl

/-- **Text that does not begin a line is indented by hanging its lines.** -/
theorem indented_eq_hang (n : Nat) (cs : List Char) : indented n false cs = hang n cs := by
  obtain ⟨first, rest, hpieces, hlines⟩ := indented_lines n false cs
  rw [hlines, hang, hpieces]
  rfl

/-- Text that hangs by `n` and is indented by `lead` hangs by both. -/
theorem indented_hang (lead n : Nat) (cs : List Char) :
    indented lead false (indented n false cs) = indented (lead + n) false cs := by
  -- at the beginning of a line the spaces are text as well
  have hboth : ∀ start, indented lead start (indented n start cs) = indented (lead + n) start cs := by
    induction cs with
    | nil => exact fun _ => rfl
    | cons c cs ih =>
      intro start
      by_cases hc : c = '\n'
      · subst hc
        rw [indented_newline, indented_newline, indented_newline, ih]
      · rw [indented_char n start hc, indented_char (lead + n) start hc, ← ih]
        cases start with
        | false => exact indented_char lead false hc _
        | true =>
          cases n with
          | zero => exact indented_char lead true hc _
          | succ n =>
            have hspaces : List.replicate (lead + (n + 1)) ' ' =
                List.replicate lead ' ' ++ ' ' :: List.replicate n ' ' := by
              rw [← List.replicate_succ, List.replicate_append_replicate]
            have hfirst : indented lead true (List.replicate (n + 1) ' ' ++ c :: indented (n + 1) false cs) =
                List.replicate lead ' ' ++
                  ' ' :: indented lead false (List.replicate n ' ' ++ c :: indented (n + 1) false cs) :=
              indented_char lead true (by decide) _
            rw [if_pos rfl, if_pos rfl, hfirst, indented_replicate, indented_char lead false hc, hspaces,
              List.append_assoc]
            rfl
  exact hboth false

theorem indented_zero (start : Bool) (cs : List Char) : indented 0 start cs = cs := by
  induction cs generalizing start with
  | nil => rfl
  | cons c cs ih => by_cases hc : c = '\n' <;> simp [indented, hc, ih]

theorem indented_append_newline (n : Nat) (start : Bool) (cs rest : List Char) :
    indented n start (cs ++ '\n' :: rest) = indented n start cs ++ '\n' :: indented n true rest := by
  induction cs generalizing start with
  | nil => exact indented_newline n start rest
  | cons c cs ih => rw [List.cons_append, indented_cons, ih, indented_cons n start c cs, List.append_assoc]

theorem withoutLineEnd_indented (n : Nat) (start : Bool) (cs : List Char) :
    withoutLineEnd (indented n start cs) = indented n start (withoutLineEnd cs) := by
  rcases List.eq_nil_or_concat' cs with rfl | ⟨front, c, rfl⟩
  · rfl
  rw [withoutLineEnd_concat]
  by_cases hc : c = '\n'
  · subst hc
    rw [indented_append_newline, if_pos rfl]
    exact (withoutLineEnd_concat _ '\n').trans (if_pos rfl)
  · obtain ⟨before, hlast⟩ : ∃ before, indented n start (front ++ [c]) = before ++ [c] := by
      clear hc
      induction front generalizing start with
      | nil => exact indented_singleton n start c
      | cons x front ih =>
        obtain ⟨before, hbefore⟩ := ih (decide (x = '\n'))
        refine ⟨indented n start [x] ++ before, ?_⟩
        rw [List.cons_append, indented_cons, hbefore, List.append_assoc]
    rw [if_neg hc, hlast, withoutLineEnd_concat, if_neg hc]

/-! ### The width of the line -/

/-- How many bytes stand on the current line. -/
def width (d : Draft) : Nat := lastLine d.text d.text.size

/-- The bytes on the line after more characters, if there were `w` before. -/
def widthAfter (w : Nat) (cs : List Char) : Nat := cs.foldl (fun w c => if c = '\n' then 0 else w + c.utf8Size) w

theorem lastLine_append_left (b bytes : ByteArray) {n : Nat} (h : n ≤ b.size) :
    lastLine (b ++ bytes) n = lastLine b n := by
  induction n with
  | zero => rfl
  | succ n ih =>
    have hbyte : (b ++ bytes)[n]? = b[n]? := by
      show (b ++ bytes).data[n]? = b.data[n]?
      rw [ByteArray.data_append]
      exact Array.getElem?_append_left (by exact h)
    rw [lastLine, lastLine, hbyte, ih (by omega)]

theorem lastLine_append_bytes (b : ByteArray) {bytes : List UInt8} (h : (0x0a : UInt8) ∉ bytes) :
    lastLine (b ++ bytes.toByteArray) (b.size + bytes.length) = lastLine b b.size + bytes.length := by
  have hstep : ∀ k ≤ bytes.length, lastLine (b ++ bytes.toByteArray) (b.size + k) = lastLine b b.size + k := by
    intro k
    induction k with
    | zero => exact fun _ => lastLine_append_left b _ (Nat.le_refl _)
    | succ k ih =>
      intro hk
      have hbyte : (b ++ bytes.toByteArray)[b.size + k]? = bytes[k]? := by
        show (b ++ bytes.toByteArray).data[b.data.size + k]? = _
        rw [ByteArray.data_append, List.data_toByteArray, Array.getElem?_append_right (by omega), Nat.add_sub_cancel_left,
          List.getElem?_toArray]
      have hnone : ¬ ((b ++ bytes.toByteArray)[b.size + k]? == some 0x0a) = true := by
        rw [hbyte, beq_iff_eq]
        exact fun hmem => h (List.mem_of_getElem? hmem)
      rw [← Nat.add_assoc, lastLine, if_neg hnone, ih (by omega)]
      rfl
  exact hstep _ (Nat.le_refl _)

theorem lastLine_append_char (b : ByteArray) (c : Char) :
    lastLine (b ++ [c].utf8Encode) (b ++ [c].utf8Encode).size =
      if c = '\n' then 0 else lastLine b b.size + c.utf8Size := by
  rw [List.utf8Encode_singleton]
  split
  · next hc =>
    subst hc
    have hne : String.utf8EncodeChar '\n' ≠ [] := List.cons_ne_nil _ _
    apply eq_of_beq
    rw [lastLine_beq_zero, getElem?_last hne, Bool.or_eq_true_iff]
    exact .inr rfl
  · next hc =>
    rw [ByteArray.size_append, List.size_toByteArray, lastLine_append_bytes b fun h => hc (eq_newline_of_mem h),
      String.length_utf8EncodeChar]

/-- **What characters make of the line.** -/
theorem width_append (b : ByteArray) (cs : List Char) :
    lastLine (b ++ cs.utf8Encode) (b ++ cs.utf8Encode).size = widthAfter (lastLine b b.size) cs := by
  induction cs generalizing b with
  | nil =>
    rw [List.utf8Encode_nil, ByteArray.append_empty]
    rfl
  | cons c cs ih =>
    have hsplit : b ++ (c :: cs).utf8Encode = b ++ [c].utf8Encode ++ cs.utf8Encode := by
      rw [ByteArray.append_assoc, ← List.utf8Encode_append, List.singleton_append]
    rw [hsplit, ih, lastLine_append_char]
    rfl

theorem widthAfter_append (w : Nat) (cs cs' : List Char) : widthAfter w (cs ++ cs') = widthAfter (widthAfter w cs) cs' :=
  List.foldl_append

theorem widthAfter_spaces (w n : Nat) : widthAfter w (List.replicate n ' ') = w + n := by
  induction n generalizing w with
  | zero => rfl
  | succ n ih =>
    show widthAfter (w + 1) (List.replicate n ' ') = _
    rw [ih]
    omega

/-! ### Lines begun under the current indentation -/

variable {d : Draft}

/-- The current line is empty, or it was begun under the current indentation: it is the indentation and, after it, as
many bytes as the column says. -/
structure Aligned (d : Draft) : Prop where
  lined : d.Lined
  column_start : d.atLineStart = true → d.column = 0
  width_eq : d.atLineStart = false → d.width = d.lead + d.column

theorem putChar_column_start (d : Draft) (c : Char) : (d.putChar c).atLineStart = true → (d.putChar c).column = 0 := by
  intro hstart
  rw [putChar_atLineStart, decide_eq_true_eq] at hstart
  rw [Draft.putChar, if_pos hstart]

theorem Aligned.putChar (h : d.Aligned) (c : Char) : (d.putChar c).Aligned := by
  have hwidth : (d.putChar c).width = widthAfter d.width (indented d.lead d.atLineStart [c]) := by
    unfold width
    rw [putChar_text, width_append]
  refine ⟨lined_putChar d c, putChar_column_start d c, fun hstart => ?_⟩
  rw [putChar_atLineStart, decide_eq_false_iff_not] at hstart
  rw [hwidth, putChar_lead, indented_char _ _ hstart, Draft.putChar, if_neg hstart]
  cases hline : d.atLineStart with
  | true =>
    have hzero : d.width = 0 := by
      have hlined := h.lined
      rw [Lined, hline] at hlined
      exact eq_of_beq hlined.symm
    rw [if_pos rfl, if_pos rfl, widthAfter_append, widthAfter_spaces, hzero, h.column_start hline]
    show (if c = '\n' then 0 else 0 + d.lead + c.utf8Size) = d.lead + (0 + c.utf8Size)
    rw [if_neg hstart]
    omega
  | false =>
    rw [if_neg Bool.false_ne_true, if_neg Bool.false_ne_true, h.width_eq hline]
    show (if c = '\n' then 0 else d.lead + d.column + c.utf8Size) = d.lead + (d.column + c.utf8Size)
    rw [if_neg hstart, Nat.add_assoc]

/-- **Writing leaves the line begun under the current indentation.** -/
theorem Aligned.put (h : d.Aligned) (s : String) : (d.put s).Aligned := by
  unfold Draft.put
  induction s.toList generalizing d with
  | nil => exact h
  | cons c cs ih => exact ih (h.putChar c)

theorem Aligned.resetLine (h : d.Aligned) : d.resetLine = d := by
  have hstart : (lastLine d.text d.text.size == 0) = d.atLineStart := h.lined.symm
  have hcolumn : lastLine d.text d.text.size - d.lead = d.column := by
    cases hline : d.atLineStart with
    | true =>
      rw [hline] at hstart
      rw [eq_of_beq hstart, h.column_start hline, Nat.zero_sub]
    | false =>
      have hwidth : lastLine d.text d.text.size = d.lead + d.column := h.width_eq hline
      rw [hwidth, Nat.add_sub_cancel_left]
  unfold Draft.resetLine
  dsimp only
  rw [hstart, hcolumn]

theorem resetLine_column_start (d : Draft) : d.resetLine.atLineStart = true → d.resetLine.column = 0 := by
  intro hstart
  have hzero : lastLine d.text d.text.size = 0 := eq_of_beq hstart
  show lastLine d.text d.text.size - d.lead = 0
  rw [hzero, Nat.zero_sub]

theorem Reached.column_start (h : Reached d) : d.atLineStart = true → d.column = 0 := by
  induction h with
  | new ns package => exact fun _ => rfl
  | put s _ ih =>
    rcases List.eq_nil_or_concat' s.toList with hs | ⟨front, c, hs⟩
    · rw [Draft.put, hs]
      exact ih
    · rw [Draft.put, hs, List.foldl_append]
      exact putChar_column_start _ c
  | record imports dependencies _ ih => exact ih
  | putValue key value _ ih =>
    unfold Draft.putValue
    split <;> exact ih
  | indent indent _ ih => exact ih
  | blockIndent blockIndent _ ih => exact ih
  | openScope place _ ih => exact ih
  | restartScope _ ih =>
    unfold Draft.restartScope
    split <;> exact ih
  | closeScope _ ih =>
    unfold Draft.closeScope
    split <;> exact ih
  | dropLineEnd start _ _ | truncate size _ _ => exact resetLine_column_start _

theorem Reached.aligned (h : Reached d) (hline : d.atLineStart = false → d.width = d.lead + d.column) : d.Aligned :=
  ⟨h.lined, h.column_start, hline⟩

/-! ### Blocks of plain text -/

theorem endCode_text (start blockIndent : Nat) (d : Draft) :
    (endCode start blockIndent d).text = (dropLineEnd start { d with blockIndent }).text := rfl

/-- When a block of code ends, the state of the line is the one that the text shows. -/
theorem endCode_line (start blockIndent : Nat) (d : Draft) :
    (endCode start blockIndent d).atLineStart = ((endCode start blockIndent d).width == 0) ∧
    (endCode start blockIndent d).column = (endCode start blockIndent d).width - (endCode start blockIndent d).lead :=
  ⟨rfl, rfl⟩

theorem putCode_text (h : d.Aligned) (s : String) : (d.putCode s).text = (d.put (splice d.column s)).text := by
  obtain ⟨left, hleft⟩ : ∃ left : Draft, left = { d.beginCode.put s with blockIndent := d.blockIndent } := ⟨_, rfl⟩
  have hlead : d.beginCode.lead = d.lead + d.column := (Nat.add_assoc _ _ _).symm
  have hput : left.text = d.text ++ (indented (d.lead + d.column) d.atLineStart s.toList).utf8Encode := by
    rw [hleft, ← hlead]
    show (d.beginCode.put s).text = _
    rw [put_text, toUTF8_ofList]
    rfl
  rw [putCode, endCode_text, ← hleft, dropLineEnd_chars hput, withoutLineEnd_indented, put_text, toUTF8_ofList,
    splice, String.toList_ofList, ← indented_eq_hang]
  cases hline : d.atLineStart with
  | true =>
    -- nothing stands on the line, so the block is not moved
    rw [h.column_start hline, indented_zero false, Nat.add_zero]
  | false => rw [indented_hang]

/-- **A block of plain text is spliced in.** It leaves the draft as writing the spliced text does. -/
theorem putCode_eq (h : d.Aligned) (s : String) : d.putCode s = d.put (splice d.column s) := by
  have haligned := h.put (splice d.column s)
  -- both drafts have the same text and are `d` but for the text and the line, which the block reads off the text
  have hcode : d.putCode s = { d with text := (d.putCode s).text }.resetLine := by
    obtain ⟨text, atLineStart, column, hput⟩ := put_frame d.beginCode s
    obtain ⟨left, hleft⟩ := dropLineEnd_frame d.text.size { d.beginCode.put s with blockIndent := d.blockIndent }
    have hend : d.putCode s = { d.beginCode.put s with blockIndent := d.blockIndent, text := left }.resetLine :=
      congrArg Draft.resetLine hleft
    rw [hput] at hend
    rw [hend]
    rfl
  have hput : (d.put (splice d.column s)).resetLine = { d with text := (d.put (splice d.column s)).text }.resetLine := by
    obtain ⟨text, atLineStart, column, hput⟩ := put_frame d (splice d.column s)
    rw [hput]
    rfl
  rw [← haligned.resetLine, hput, hcode, putCode_text h]

end Draft

open Draft

namespace Script

variable {registry : Registry} {run : RunScript} {previous : String}

theorem run_placeholder {template : String} (h : template ∈ ["$C", "$\x7bC|\x7d"]) (body : Script) (d : Draft) :
    (runStep registry run previous (.inline template [.code body])).run d =
      (runBlock (runSteps registry run previous body)).run d := by
  have hexpand : ∀ act : DraftM Unit, expand template [.block act] = runBlock act >>= fun _ => pure () := by
    intro act
    simp only [List.mem_cons, List.not_mem_nil, or_false] at h
    rcases h with rfl | rfl
    · rfl
    · rfl
  show (expand template [.block (runSteps registry run previous body)]).run d = _
  rw [hexpand, run_bind]
  cases (runBlock (runSteps registry run previous body)).run d with
  | mk r d' => cases r <;> rfl

/-- **Blocks are spliced into their line.** Where the line is empty or was begun under the current indentation, a block
that writes plain text leaves the draft as writing that text does, without a line end at its end and with spaces up to
the column of the placeholder before each line after the first that is not empty. -/
theorem block_splices (registry : Registry) (run : RunScript) (previous : String) {body : Script} {text : String}
    (hbody : body.literal? previous = some text) {d : Draft} (hd : d.Reached)
    (hline : d.atLineStart = false → d.width = d.lead + d.column) :
    (runBlock (runSteps registry run previous body)).run d = (.ok (), d.put (Text.splice d.column text)) ∧
    ∀ template ∈ ["$C", "$\x7bC|\x7d"], (runStep registry run previous (.inline template [.code body])).run d =
      (.ok (), d.put (Text.splice d.column text)) := by
  have hblock : (runBlock (runSteps registry run previous body)).run d = (.ok (), d.put (Text.splice d.column text)) := by
    rw [run_runBlock, run_bind, run_andThen, runSteps_puts hbody]
    exact congrArg (Prod.mk (Except.ok ())) (putCode_eq (hd.aligned hline) text)
  refine ⟨hblock, fun template htemplate => ?_⟩
  rw [run_placeholder htemplate, hblock]

/-- An assignment whose value is still to be written, one level deep. -/
def assignment : Draft := ((Script.run [] [.indent, .inline "x = " []]).run { ns := "", package := "" }).2

theorem block_splices_list :
    assignment.width = assignment.lead + assignment.column ∧ assignment.column = 4 ∧
    (runStep [] (runAt [] 0) "" (.inline "$C" [.code [.line "[" [], .newline, .line "    1," [], .line "]" []]])).run
      assignment = (.ok (), assignment.put "[\n\n        1,\n    ]") := by
  have hreached : assignment.Reached := runAt_reached [] maxDepth "" [.indent, .inline "x = " []] (.new "" "")
  have hwidth : assignment.width = assignment.lead + assignment.column := by decide +kernel
  have hcolumn : assignment.column = 4 := by decide +kernel
  have hbody : Script.literal? "" [.line "[" [], .newline, .line "    1," [], .line "]" []] = some "[\n\n    1,\n]\n" := by
    with_unfolding_all rfl
  have hsplice : Text.splice 4 "[\n\n    1,\n]\n" = "[\n\n        1,\n    ]" := by with_unfolding_all rfl
  have hrun := (block_splices [] (runAt [] 0) "" hbody hreached fun _ => hwidth).2 "$C" List.mem_cons_self
  rw [hcolumn, hsplice] at hrun
  exact ⟨hwidth, hcolumn, hrun⟩

end Script

end ClientGen
