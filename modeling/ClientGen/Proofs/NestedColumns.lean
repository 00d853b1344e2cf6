import ClientGen.Proofs.BlockNests
import ClientGen.Proofs.BlockSplice

/-!
# The columns of nested blocks

The lines of a block are to begin at the column where the block's placeholder stands. The column is counted from the
indentation under which the line was begun, and a block adds it to the indentation. Inside of the block, on its first
line, columns are still counted from the indentation outside, so a block that stands there adds what the outer one has
added already, and its lines begin too far to the right. The end of a line, and the end of a block, put the count
right.

* `Script.nested_columns`: where the lines of nested blocks begin.
-/

namespace ClientGen

namespace Nest

open Draft Text

/-! ### Pages -/

/-- A block as its lines see it. -/
structure Anchor where
  /-- Where its placeholder stands, in bytes from the start of the line. -/
  column : Nat
  /-- How far its lines are moved beyond that. -/
  drift : Nat
deriving DecidableEq, Repr

/-- Where the lines of the block begin. -/
def Anchor.margin (a : Anchor) : Nat := a.column + a.drift

/-- A line, and the block that began it. -/
structure Line where
  owner : Anchor
  chars : List Char
deriving DecidableEq, Repr

/-- The characters of the line: it begins at the margin of its block, unless it is empty. -/
def Line.text (l : Line) : List Char := padLine l.owner.margin l.chars

/-- How many bytes the line has. -/
def Line.width (l : Line) : Nat := (l.text.map Char.utf8Size).sum

/-- Lines that have been written. -/
structure Page where
  /-- The finished lines, the last one first. -/
  above : List Line := []
  /-- The line that is being written. -/
  line : Line
  /-- How many columns are counted on this line beyond those that it has. -/
  drift : Nat := 0

namespace Page

/-- The lines from the first one on. -/
def lines (p : Page) : List Line := (p.line :: p.above).reverse

/-- The text of the finished lines. -/
def front (p : Page) : List Char := p.above.reverse.flatMap fun l => l.text ++ ['\n']

/-- The text of all lines. -/
def text (p : Page) : List Char := p.front ++ p.line.text

/-- Writes a character inside of a block. -/
def putChar (owner : Anchor) (p : Page) (c : Char) : Page :=
  if c = '\n' then { above := p.line :: p.above, line := ⟨owner, []⟩ }
  else if p.line.chars = [] then { p with line := ⟨owner, [c]⟩ }
  else { p with line := ⟨p.line.owner, p.line.chars ++ [c]⟩ }

/-- A block that stands here. On an empty line that is where the line would begin. -/
def anchor (owner : Anchor) (p : Page) : Anchor :=
  ⟨if p.line.chars = [] then owner.margin else p.line.width, p.drift⟩

/-- The page that a block which stands here begins with. It goes on with the line, and counts the columns by which it
is moved twice. -/
def enter (owner : Anchor) (p : Page) : Page :=
  { line := p.line, drift := p.drift + ((p.anchor owner).margin - owner.margin) }

/-- The page without a line end at its end. -/
def dropEnd (p : Page) : Page :=
  match p.line.chars, p.above with
  | [], line :: above => { above, line, drift := p.drift }
  | _, _ => p

/-- The page after a block that has left the page `q`. Columns are counted from the margin again, if the line reaches
it. -/
def leave (owner : Anchor) (p q : Page) : Page where
  above := q.dropEnd.above ++ p.above
  line := q.dropEnd.line
  drift := if q.dropEnd.line.chars = [] then 0 else owner.margin - q.dropEnd.line.width

mutual

/-- Writes a text or a block inside of a block. -/
def put (owner : Anchor) (p : Page) : Nest → Page
  | .text s => s.toList.foldl (putChar owner) p
  | .block body => p.leave owner (putAll (p.anchor owner) (p.enter owner) body)

def putAll (owner : Anchor) (p : Page) : List Nest → Page
  | [] => p
  | n :: rest => putAll owner (put owner p n) rest

end

/-- The page of a nest that begins on an empty line under an indentation. -/
def ofNest (lead : Nat) (ns : List Nest) : Page := putAll ⟨lead, 0⟩ { line := ⟨⟨lead, 0⟩, []⟩ } ns

end Page

/-! ### The text of a page -/

theorem newline_notMem_text {l : Line} (h : '\n' ∉ l.chars) : '\n' ∉ l.text := by
  unfold Line.text padLine
  split
  · exact List.not_mem_nil
  · rw [List.mem_append, not_or]
    exact ⟨fun hmem => absurd (List.eq_of_mem_replicate hmem) (by decide), h⟩

theorem text_of_ne_nil {l : Line} (h : l.chars ≠ []) : l.text = List.replicate l.owner.margin ' ' ++ l.chars := by
  unfold Line.text padLine
  rw [if_neg (by rwa [List.isEmpty_iff])]

theorem text_of_nil {l : Line} (h : l.chars = []) : l.text = [] := by
  unfold Line.text padLine
  rw [if_pos (List.isEmpty_iff.2 h)]

theorem width_of_nil {l : Line} (h : l.chars = []) : l.width = 0 := by
  unfold Line.width
  rw [text_of_nil h]
  rfl

theorem width_of_ne_nil {l : Line} (h : l.chars ≠ []) :
    l.width = l.owner.margin + (l.chars.map Char.utf8Size).sum := by
  unfold Line.width
  rw [text_of_ne_nil h, List.map_append, List.sum_append, List.map_replicate, List.sum_replicate]
  show l.owner.margin * 1 + _ = _
  rw [Nat.mul_one]

theorem width_pos {l : Line} (h : l.chars ≠ []) : 0 < l.width := by
  obtain ⟨c, cs, hcs⟩ := List.exists_cons_of_ne_nil h
  have hc := Char.utf8Size_pos c
  rw [width_of_ne_nil h, hcs, List.map_cons, List.sum_cons]
  omega

theorem widthAfter_of_unbroken (w : Nat) {cs : List Char} (h : '\n' ∉ cs) :
    widthAfter w cs = w + (cs.map Char.utf8Size).sum := by
  induction cs generalizing w with
  | nil => rfl
  | cons c cs ih =>
    rw [List.mem_cons, not_or] at h
    show widthAfter (if c = '\n' then 0 else w + c.utf8Size) cs = _
    rw [if_neg (Ne.symm h.1), ih _ h.2, List.map_cons, List.sum_cons, Nat.add_assoc]

namespace Page

variable {p q : Page}

theorem text_newline (l : Line) (above : List Line) (owner : Anchor) (n m : Nat) :
    text ⟨l :: above, ⟨owner, []⟩, n⟩ = text ⟨above, l, m⟩ ++ ['\n'] := by
  have hempty : Line.text ⟨owner, []⟩ = [] := rfl
  simp [text, front, hempty]

theorem widthAfter_front (p : Page) : widthAfter 0 p.front = 0 := by
  unfold front
  cases p.above with
  | nil => rfl
  | cons l above =>
    rw [List.reverse_cons, List.flatMap_append, List.flatMap_singleton, ← List.append_assoc, widthAfter_append]
    rfl

theorem pieces_append {cs : List Char} (h : '\n' ∉ cs) (rest : List Char) :
    pieces '\n' (cs ++ '\n' :: rest) = cs :: pieces '\n' rest := by
  induction cs with
  | nil => rfl
  | cons c cs ih =>
    rw [List.mem_cons, not_or] at h
    rw [List.cons_append, pieces, if_neg (Ne.symm h.1), ih h.2]

theorem pieces_unbroken {cs : List Char} (h : '\n' ∉ cs) : pieces '\n' cs = [cs] := by
  induction cs with
  | nil => rfl
  | cons c cs ih =>
    rw [List.mem_cons, not_or] at h
    rw [pieces, if_neg (Ne.symm h.1), ih h.2]

/-- **The lines of the text are the lines of the page.** -/
theorem pieces_text (h : ∀ l ∈ p.line :: p.above, '\n' ∉ l.chars) : pieces '\n' p.text = p.lines.map Line.text := by
  obtain ⟨hline, habove⟩ := List.forall_mem_cons.1 h
  have hfront : ∀ ls : List Line, (∀ l ∈ ls, '\n' ∉ l.chars) →
      pieces '\n' ((ls.flatMap fun l => l.text ++ ['\n']) ++ p.line.text) = ls.map Line.text ++ [p.line.text] := by
    intro ls hls
    induction ls with
    | nil => exact pieces_unbroken (newline_notMem_text hline)
    | cons l ls ih =>
      obtain ⟨hl, hls⟩ := List.forall_mem_cons.1 hls
      rw [List.flatMap_cons, List.append_assoc, List.append_assoc, List.singleton_append,
        pieces_append (newline_notMem_text hl), ih hls]
      rfl
  rw [lines, List.reverse_cons, List.map_append]
  exact hfront _ fun l hl => habove l (List.mem_reverse.1 hl)

theorem dropEnd_text (h : '\n' ∉ p.line.chars) : p.dropEnd.text = withoutLineEnd p.text := by
  rcases p with ⟨above, ⟨owner, chars⟩, n⟩
  rcases List.eq_nil_or_concat' chars with rfl | ⟨cs, c, rfl⟩
  · cases above with
    | nil => rfl
    | cons l above =>
      rw [text_newline l above owner n n, withoutLineEnd_concat, if_pos rfl]
      rfl
  · have hne : cs ++ [c] ≠ [] := List.append_ne_nil_of_right_ne_nil _ (List.cons_ne_nil _ _)
    have hc : c ≠ '\n' := fun hc => h (List.mem_append_right _ (by rw [hc]; exact List.mem_singleton_self _))
    have hkeep : dropEnd ⟨above, ⟨owner, cs ++ [c]⟩, n⟩ = ⟨above, ⟨owner, cs ++ [c]⟩, n⟩ := by
      unfold dropEnd
      split
      · next hempty _ => exact absurd hempty hne
      · rfl
    rw [hkeep, text, text_of_ne_nil hne, ← List.append_assoc, ← List.append_assoc, withoutLineEnd_concat, if_neg hc]

theorem mem_of_mem_dropEnd {l : Line} (h : l ∈ p.dropEnd.line :: p.dropEnd.above) : l ∈ p.line :: p.above := by
  unfold dropEnd at h
  split at h
  · next line above _ habove =>
    rw [habove]
    exact List.mem_cons_of_mem _ h
  · exact h

theorem leave_text (owner : Anchor) (p q : Page) : (p.leave owner q).text = p.front ++ q.dropEnd.text := by
  simp [leave, text, front]

theorem putChar_text (owner : Anchor) (p : Page) (c : Char) :
    (p.putChar owner c).text = p.text ++ indented owner.margin (decide (p.line.chars = [])) [c] := by
  by_cases hc : c = '\n'
  · subst hc
    rw [putChar, if_pos rfl, text_newline p.line p.above owner 0 p.drift]
    rfl
  · rw [putChar, if_neg hc, indented_char _ _ hc]
    by_cases hempty : p.line.chars = []
    · rw [if_pos hempty, decide_eq_true hempty, if_pos rfl, text, text, text_of_nil hempty, List.append_nil]
      rfl
    · rw [if_neg hempty, decide_eq_false hempty, text, text, text_of_ne_nil hempty,
        text_of_ne_nil (List.append_ne_nil_of_left_ne_nil hempty _), List.append_assoc, List.append_assoc]
      rfl

end Page

/-! ### Drafts show pages -/

/-- A draft shows a page inside of a block: the page is the text after an offset where a line begins, lines are indented
to the margin of the block, and columns are counted as the page does. -/
structure Shows (base : ByteArray) (owner : Anchor) (p : Page) (d : Draft) : Prop where
  fresh : lastLine base base.size = 0
  text : d.text = base ++ p.text.utf8Encode
  lead : d.lead = owner.margin
  start : d.atLineStart = decide (p.line.chars = [])
  empty : p.line.chars = [] → d.column = 0 ∧ p.drift = 0
  column : p.line.chars ≠ [] → d.column + owner.margin = p.line.width + p.drift
  unbroken : ∀ l ∈ p.line :: p.above, '\n' ∉ l.chars

variable {base : ByteArray} {owner : Anchor} {p q : Page} {d : Draft}

theorem lastLine_page (hfresh : lastLine base base.size = 0) (hline : '\n' ∉ p.line.chars) :
    lastLine (base ++ p.text.utf8Encode) (base ++ p.text.utf8Encode).size = p.line.width := by
  rw [width_append, hfresh, Page.text, widthAfter_append, Page.widthAfter_front,
    widthAfter_of_unbroken 0 (newline_notMem_text hline), Nat.zero_add]
  rfl

theorem Shows.putChar (h : Shows base owner p d) (c : Char) : Shows base owner (p.putChar owner c) (d.putChar c) := by
  obtain ⟨hline, habove⟩ := List.forall_mem_cons.1 h.unbroken
  have htext : (d.putChar c).text = base ++ (p.putChar owner c).text.utf8Encode := by
    rw [Draft.putChar_text, Page.putChar_text, h.text, h.lead, h.start, List.utf8Encode_append, ByteArray.append_assoc]
  have hlead : (d.putChar c).lead = owner.margin := (putChar_lead d c).trans h.lead
  by_cases hc : c = '\n'
  · subst hc
    have hpage : p.putChar owner '\n' = { above := p.line :: p.above, line := ⟨owner, []⟩ } := if_pos rfl
    rw [hpage] at htext ⊢
    exact {
      fresh := h.fresh, text := htext, lead := hlead
      start := putChar_atLineStart d _
      empty := fun _ => ⟨putChar_column_start d _ (putChar_atLineStart d _), rfl⟩
      column := fun hne => absurd rfl hne
      unbroken := List.forall_mem_cons.2 ⟨List.not_mem_nil, h.unbroken⟩ }
  have hnew : '\n' ∉ [c] := fun hmem => hc (List.mem_singleton.1 hmem).symm
  have hcolumn : (d.putChar c).column = d.column + c.utf8Size := by
    rw [Draft.putChar, if_neg hc]
    split <;> rfl
  have hstart : (d.putChar c).atLineStart = false := by rw [putChar_atLineStart, decide_eq_false hc]
  -- the first character of a line puts it at the margin of the block that is open; the others leave it there
  by_cases hempty : p.line.chars = []
  · have hpage : p.putChar owner c = { p with line := ⟨owner, [c]⟩ } := by rw [Page.putChar, if_neg hc, if_pos hempty]
    obtain ⟨hzero, hdrift⟩ := h.empty hempty
    rw [hpage] at htext ⊢
    refine ⟨h.fresh, htext, hlead, hstart, fun hnil => absurd hnil (List.cons_ne_nil _ _), fun hne => ?_,
      List.forall_mem_cons.2 ⟨hnew, habove⟩⟩
    rw [hcolumn, width_of_ne_nil hne, hzero, hdrift]
    show 0 + c.utf8Size + owner.margin = owner.margin + (c.utf8Size + 0) + 0
    omega
  · have hpage : p.putChar owner c = { p with line := ⟨p.line.owner, p.line.chars ++ [c]⟩ } := by
      rw [Page.putChar, if_neg hc, if_neg hempty]
    have hne := List.append_ne_nil_of_left_ne_nil hempty [c]
    have hbefore := h.column hempty
    rw [hpage] at htext ⊢
    refine ⟨h.fresh, htext, hlead, hstart.trans (decide_eq_false hne).symm, fun hnil => absurd hnil hne, fun _ => ?_,
      List.forall_mem_cons.2 ⟨?_, habove⟩⟩
    · rw [width_of_ne_nil hempty] at hbefore
      rw [hcolumn, width_of_ne_nil hne]
      show _ = p.line.owner.margin + ((p.line.chars ++ [c]).map Char.utf8Size).sum + p.drift
      rw [List.map_append, List.sum_append]
      show _ = p.line.owner.margin + ((p.line.chars.map Char.utf8Size).sum + (c.utf8Size + 0)) + p.drift
      omega
    · exact fun hmem => (List.mem_append.1 hmem).elim hline hnew

theorem Shows.put (h : Shows base owner p d) (s : String) :
    Shows base owner (p.put owner (.text s)) (d.put s) ∧ ∃ cs, (p.put owner (.text s)).text = p.text ++ cs := by
  rw [Page.put, Draft.put]
  induction s.toList generalizing p d with
  | nil => exact ⟨h, [], (List.append_nil _).symm⟩
  | cons c cs ih =>
    obtain ⟨hshows, more, hmore⟩ := ih (h.putChar c)
    refine ⟨hshows, indented owner.margin (decide (p.line.chars = [])) [c] ++ more, ?_⟩
    rw [List.foldl_cons, hmore, Page.putChar_text, List.append_assoc]

theorem Shows.begin (h : Shows base owner p d) :
    Shows (base ++ p.front.utf8Encode) (p.anchor owner) (p.enter owner) d.beginCode := by
  have hlead : d.beginCode.lead = d.lead + d.column := (Nat.add_assoc _ _ _).symm
  have hmargin : (p.anchor owner).margin = d.lead + d.column := by
    show (if p.line.chars = [] then owner.margin else p.line.width) + p.drift = _
    split
    · next hempty => rw [(h.empty hempty).1, (h.empty hempty).2, h.lead]
    · next hne => rw [← h.column hne, h.lead, Nat.add_comm]
  have hdrift : (p.enter owner).drift = p.drift + d.column := by
    show p.drift + ((p.anchor owner).margin - owner.margin) = _
    rw [hmargin, h.lead, Nat.add_sub_cancel_left]
  refine ⟨?_, ?_, hlead.trans hmargin.symm, h.start, fun hempty => ⟨(h.empty hempty).1, ?_⟩, fun hne => ?_, ?_⟩
  · rw [width_append, h.fresh, Page.widthAfter_front]
  · rw [ByteArray.append_assoc, ← List.utf8Encode_append]
    exact h.text
  · rw [hdrift, (h.empty hempty).1, (h.empty hempty).2]
  · have hcolumn := h.column hne
    rw [hmargin, hdrift]
    show d.column + (d.lead + d.column) = p.line.width + (p.drift + d.column)
    rw [h.lead]
    omega
  · exact fun l hl => h.unbroken l (List.mem_cons.2 (.inl (List.mem_singleton.1 hl)))

/-- When a block ends, its last line end is dropped and the state of the line is read off the text. -/
theorem Shows.finish (h : Shows base owner p d) {inner : Anchor} {left : Draft} {cs : List Char}
    (hleft : Shows (base ++ p.front.utf8Encode) inner q left) (hgrows : q.text = p.line.text ++ cs)
    (hindent : left.indent = d.indent) :
    Shows base owner (p.leave owner q) (endCode d.text.size d.blockIndent left) ∧
    (p.leave owner q).text = p.text ++ withoutLineEnd cs := by
  obtain ⟨hline, habove⟩ := List.forall_mem_cons.1 h.unbroken
  have hpage : (p.leave owner q).text = p.text ++ withoutLineEnd cs := by
    rw [Page.leave_text, Page.dropEnd_text (hleft.unbroken _ List.mem_cons_self), hgrows,
      withoutLineEnd_append (newline_notMem_text hline), ← List.append_assoc]
    rfl
  have hunbroken : ∀ l ∈ (p.leave owner q).line :: (p.leave owner q).above, '\n' ∉ l.chars := by
    intro l hl
    rw [Page.leave, ← List.cons_append, List.mem_append] at hl
    rcases hl with hl | hl
    · exact hleft.unbroken l (Page.mem_of_mem_dropEnd hl)
    · exact habove l hl
  have htext : (endCode d.text.size d.blockIndent left).text = base ++ (p.leave owner q).text.utf8Encode := by
    have hadded : ({ left with blockIndent := d.blockIndent } : Draft).text = d.text ++ cs.utf8Encode := by
      show left.text = _
      rw [hleft.text, hgrows, h.text, ByteArray.append_assoc, ByteArray.append_assoc, ← List.utf8Encode_append,
        ← List.utf8Encode_append, Page.text, List.append_assoc]
    rw [endCode_text, dropLineEnd_chars hadded, hpage, h.text, ByteArray.append_assoc, ← List.utf8Encode_append]
  have hlead : (endCode d.text.size d.blockIndent left).lead = owner.margin := by
    obtain ⟨hindents, hblock⟩ := endCode_indents d.text.size d.blockIndent left
    rw [← h.lead, Draft.lead, Draft.lead, hindents, hblock, hindent]
  have hwidth : (endCode d.text.size d.blockIndent left).width = (p.leave owner q).line.width := by
    rw [Draft.width, htext]
    exact lastLine_page h.fresh (hunbroken _ List.mem_cons_self)
  obtain ⟨hstart, hcolumn⟩ := endCode_line d.text.size d.blockIndent left
  rw [hwidth] at hstart hcolumn
  rw [hlead] at hcolumn
  refine ⟨⟨h.fresh, htext, hlead, ?_, fun hempty => ⟨?_, if_pos hempty⟩, fun hne => ?_, hunbroken⟩, hpage⟩
  · rw [hstart]
    by_cases hempty : (p.leave owner q).line.chars = []
    · rw [width_of_nil hempty, decide_eq_true hempty]
      rfl
    · rw [decide_eq_false hempty]
      exact beq_eq_false_iff_ne.2 (Nat.ne_of_gt (width_pos hempty))
  · rw [hcolumn, width_of_nil hempty, Nat.zero_sub]
  · have hdrift : (p.leave owner q).drift = owner.margin - (p.leave owner q).line.width := if_neg hne
    rw [hcolumn, hdrift]
    omega

mutual

/-- **Writing a nest keeps a draft showing its page.** -/
theorem shows_putNest : ∀ (n : Nest) {base : ByteArray} {owner : Anchor} {p : Page} {d : Draft}, Shows base owner p d →
    Shows base owner (p.put owner n) (d.putNest n) ∧ (∃ cs, (p.put owner n).text = p.text ++ cs) ∧
    (d.putNest n).indent = d.indent
  | .text s, _, _, _, d, h => ⟨(h.put s).1, (h.put s).2, (writing_put s).indent d⟩
  | .block body, _, _, _, d, h => by
    obtain ⟨hleft, ⟨cs, hcs⟩, hindent⟩ := shows_putNests body h.begin
    obtain ⟨hshows, htext⟩ := h.finish hleft hcs hindent
    exact ⟨hshows, ⟨_, htext⟩, (endCode_indents _ _ _).1.trans hindent⟩

theorem shows_putNests : ∀ (ns : List Nest) {base : ByteArray} {owner : Anchor} {p : Page} {d : Draft},
    Shows base owner p d → Shows base owner (p.putAll owner ns) (d.putNests ns) ∧ (∃ cs, (p.putAll owner ns).text = p.text ++ cs) ∧
    (d.putNests ns).indent = d.indent
  | [], _, _, p, _, h => ⟨h, ⟨[], (List.append_nil p.text).symm⟩, rfl⟩
  | n :: rest, _, _, _, _, h => by
    obtain ⟨hfirst, ⟨cs, hcs⟩, hindent⟩ := shows_putNest n h
    obtain ⟨hrest, ⟨more, hmore⟩, hindents⟩ := shows_putNests rest hfirst
    refine ⟨hrest, ⟨cs ++ more, ?_⟩, hindents.trans hindent⟩
    rw [Page.putAll, hmore, hcs, List.append_assoc]

end

/-! ### Nests in which no block drifts -/

/-- Does the text end a line? -/
def breaks : Nest → Bool
  | .text s => s.toList.contains '\n'
  | .block _ => false

mutual

/-- No block stands on the first line of another; `first` tells whether the nest is on the first line of a block. -/
def hangs (first : Bool) : Nest → Bool
  | .text _ => true
  | .block body => !first && allHang true body

def allHang (first : Bool) : List Nest → Bool
  | [] => true
  | n :: rest => hangs first n && allHang (first && !n.breaks) rest

end

/-- The lines that are not empty reach the margin of the block, and no block that began one is moved. -/
structure Straight (owner : Anchor) (p : Page) : Prop where
  reach : ∀ l ∈ p.line :: p.above, l.chars ≠ [] → owner.margin ≤ l.width
  still : ∀ l ∈ p.line :: p.above, l.chars ≠ [] → l.owner.drift = 0

theorem Straight.putChar (h : Straight owner p) (howner : owner.drift = 0) (c : Char) :
    Straight owner (p.putChar owner c) := by
  obtain ⟨hreach, hreaches⟩ := List.forall_mem_cons.1 h.reach
  obtain ⟨hstill, hstills⟩ := List.forall_mem_cons.1 h.still
  rw [Page.putChar]
  split
  · exact ⟨List.forall_mem_cons.2 ⟨fun hne => absurd rfl hne, h.reach⟩,
      List.forall_mem_cons.2 ⟨fun hne => absurd rfl hne, h.still⟩⟩
  split
  · refine ⟨List.forall_mem_cons.2 ⟨fun hne => ?_, hreaches⟩, List.forall_mem_cons.2 ⟨fun _ => howner, hstills⟩⟩
    rw [width_of_ne_nil hne]
    exact Nat.le_add_right _ _
  · next hne =>
    refine ⟨List.forall_mem_cons.2 ⟨fun hnew => ?_, hreaches⟩, List.forall_mem_cons.2 ⟨fun _ => hstill hne, hstills⟩⟩
    have hbefore := hreach hne
    rw [width_of_ne_nil hne] at hbefore
    rw [width_of_ne_nil hnew, List.map_append, List.sum_append]
    dsimp only
    omega

/-- A text keeps the lines straight. It leaves no drift if there was none, or if it ends a line. -/
theorem Straight.put (h : Straight owner p) (howner : owner.drift = 0) (s : String) :
    Straight owner (p.put owner (.text s)) ∧
    ((breaks (.text s) = true ∨ p.drift = 0) → (p.put owner (.text s)).drift = 0) := by
  rw [Page.put, breaks]
  induction s.toList generalizing p with
  | nil => exact ⟨h, fun hdrift => hdrift.resolve_left (by simp)⟩
  | cons c cs ih =>
    obtain ⟨hstraight, hdrift⟩ := ih (h.putChar howner c)
    refine ⟨hstraight, fun hor => hdrift ?_⟩
    rw [List.contains_cons, Bool.or_eq_true, beq_iff_eq] at hor
    by_cases hc : c = '\n'
    · right
      rw [Page.putChar, if_pos hc]
    · have hsame : (p.putChar owner c).drift = p.drift := by
        rw [Page.putChar, if_neg hc]
        split <;> rfl
      rw [hsame]
      exact hor.imp_left fun hline => hline.resolve_left fun heq => hc heq.symm

theorem Straight.enter (h : Straight owner p) (hdrift : p.drift = 0) :
    owner.margin ≤ (p.anchor owner).margin ∧ Straight (p.anchor owner) (p.enter owner) := by
  have hmargin : (p.anchor owner).margin = if p.line.chars = [] then owner.margin else p.line.width := by
    rw [Anchor.margin]
    show _ + p.drift = _
    rw [hdrift]
    rfl
  rw [hmargin]
  refine ⟨?_, ⟨?_, ?_⟩⟩
  · split
    · exact Nat.le_refl _
    · next hne => exact h.reach _ List.mem_cons_self hne
  · intro l hl hne
    obtain rfl : l = p.line := List.mem_singleton.1 hl
    rw [hmargin, if_neg hne]
  · intro l hl hne
    obtain rfl : l = p.line := List.mem_singleton.1 hl
    exact h.still _ List.mem_cons_self hne

theorem Straight.leave (h : Straight owner p) {inner : Anchor} (hmargin : owner.margin ≤ inner.margin) (hq : Straight inner q) :
    Straight owner (p.leave owner q) ∧ (p.leave owner q).drift = 0 := by
  have hlines : ∀ l ∈ (p.leave owner q).line :: (p.leave owner q).above,
      l ∈ q.line :: q.above ∨ l ∈ p.line :: p.above := by
    intro l hl
    rw [Page.leave, ← List.cons_append, List.mem_append] at hl
    exact hl.imp Page.mem_of_mem_dropEnd (List.mem_cons_of_mem _)
  have hreach : ∀ l ∈ (p.leave owner q).line :: (p.leave owner q).above, l.chars ≠ [] → owner.margin ≤ l.width := by
    intro l hl hne
    rcases hlines l hl with hl | hl
    · exact Nat.le_trans hmargin (hq.reach l hl hne)
    · exact h.reach l hl hne
  refine ⟨⟨hreach, fun l hl hne => ?_⟩, ?_⟩
  · rcases hlines l hl with hl | hl
    · exact hq.still l hl hne
    · exact h.still l hl hne
  · show (if (p.leave owner q).line.chars = [] then 0 else owner.margin - (p.leave owner q).line.width) = 0
    split
    · rfl
    · next hne => exact Nat.sub_eq_zero_of_le (hreach _ List.mem_cons_self hne)

mutual

/-- **No block drifts where none stands on the first line of another.** Off the first line there is no drift to begin
with, and a block takes none along to the lines after it. -/
theorem straight_put : ∀ (n : Nest) {first : Bool} {owner : Anchor} {p : Page}, n.hangs first = true → owner.drift = 0 →
    Straight owner p → (first = false → p.drift = 0) →
    Straight owner (p.put owner n) ∧ ((first && !n.breaks) = false → (p.put owner n).drift = 0)
  | .text s, first, _, _, _, howner, h, hdrift => by
    obtain ⟨hstraight, hzero⟩ := h.put howner s
    refine ⟨hstraight, fun hfirst => hzero ?_⟩
    rw [Bool.and_eq_false_iff, Bool.not_eq_false'] at hfirst
    exact hfirst.symm.imp_right hdrift
  | .block body, first, owner, p, hhangs, _, h, hdrift => by
    rw [hangs, Bool.and_eq_true, Bool.not_eq_true'] at hhangs
    obtain ⟨hfirst, hbody⟩ := hhangs
    have hzero : p.drift = 0 := hdrift hfirst
    obtain ⟨hmargin, henter⟩ := h.enter hzero
    obtain ⟨hq, -⟩ := straight_putAll body hbody hzero henter fun hfalse => absurd hfalse (by decide)
    obtain ⟨hleave, hleft⟩ := h.leave hmargin hq
    exact ⟨hleave, fun _ => hleft⟩

theorem straight_putAll : ∀ (ns : List Nest) {first : Bool} {owner : Anchor} {p : Page}, allHang first ns = true →
    owner.drift = 0 → Straight owner p → (first = false → p.drift = 0) →
    Straight owner (p.putAll owner ns) ∧ (first = false → (p.putAll owner ns).drift = 0)
  | [], _, _, _, _, _, h, hdrift => ⟨h, hdrift⟩
  | n :: rest, first, owner, p, hhangs, howner, h, hdrift => by
    rw [allHang, Bool.and_eq_true] at hhangs
    obtain ⟨hfirst, hzero⟩ := straight_put n hhangs.1 howner h hdrift
    obtain ⟨hrest, hlast⟩ := straight_putAll rest hhangs.2 howner hfirst hzero
    exact ⟨hrest, fun hfalse => hlast (by rw [hfalse, Bool.false_and])⟩

end

end Nest

open Draft Nest

namespace Script

/-- **Where the lines of nested blocks begin.** A script of texts and blocks that starts on an empty line writes the lines
of its page. Each that is not empty begins at the column of the placeholder of the block that began it, moved by the
drift of that block. Where no block stands on the first line of another, no block drifts, and the lines of all blocks
begin at the columns of their placeholders. -/
theorem nested_columns (registry : Registry) (run : RunScript) (previous : String) {script : Script} {ns : List Nest}
    (hscript : Script.nest? previous script = some ns) {d : Draft} (hd : d.Reached) (hstart : d.atLineStart = true) :
    ∃ (d' : Draft) (text : List Char),
      (runSteps registry run previous script).run d = (.ok (), d') ∧
      d'.text = d.text ++ (String.ofList text).toUTF8 ∧
      Text.pieces '\n' text = (Page.ofNest d.lead ns).lines.map Line.text ∧
      (∀ l ∈ (Page.ofNest d.lead ns).lines, l.chars ≠ [] →
        l.text = List.replicate (l.owner.column + l.owner.drift) ' ' ++ l.chars) ∧
      (allHang false ns = true → ∀ l ∈ (Page.ofNest d.lead ns).lines, l.chars ≠ [] → l.owner.drift = 0) := by
  have hlined : (lastLine d.text d.text.size == 0) = true := hd.lined.symm.trans hstart
  have hshows : Shows d.text ⟨d.lead, 0⟩ { line := ⟨⟨d.lead, 0⟩, []⟩ } d := {
    fresh := eq_of_beq hlined
    text := by
      show d.text = d.text ++ [].utf8Encode
      rw [List.utf8Encode_nil, ByteArray.append_empty]
    lead := rfl
    start := hstart
    empty := fun _ => ⟨hd.column_start hstart, rfl⟩
    column := fun hne => absurd rfl hne
    unbroken := List.forall_mem_singleton.2 List.not_mem_nil }
  obtain ⟨hpage, -, -⟩ := shows_putNests ns hshows
  refine ⟨d.putNests ns, (Page.ofNest d.lead ns).text, runSteps_weaves script hscript d, ?_, Page.pieces_text hpage.unbroken,
    fun l _ hne => text_of_ne_nil hne, fun hhang l hl => ?_⟩
  · rw [toUTF8_ofList]
    exact hpage.text
  · have hempty : Straight ⟨d.lead, 0⟩ { line := ⟨⟨d.lead, 0⟩, []⟩ } :=
      ⟨List.forall_mem_singleton.2 fun hne => absurd rfl hne, List.forall_mem_singleton.2 fun hne => absurd rfl hne⟩
    exact (straight_putAll ns hhang rfl hempty fun _ => rfl).1.still l (List.mem_reverse.1 hl)

/-- A block on the first line of another. -/
def nestedCall : Script := [.line "x = $C" [.code [.line "f($C)" [.code [.line "a," [], .line "b" []]]]]]

/-- What it writes. -/
def nestedCallNest : List Nest :=
  [.text "x = ", .block [.text "f(", .block [.text "a,", .text "\n", .text "b", .text "\n"], .text ")", .text "\n"],
    .text "\n"]

/-- The inner block stands at column 6, and its second line begins at column 10. -/
theorem nestedCall_drifts : ∃ (d' : Draft) (text : List Char),
    (runSteps [] (runAt [] 0) "" nestedCall).run { ns := "", package := "" } = (.ok (), d') ∧
    d'.text = ByteArray.empty ++ (String.ofList text).toUTF8 ∧
    Text.pieces '\n' text = ["x = f(a,".toList, "          b)".toList, []] ∧
    ⟨⟨6, 4⟩, ['b', ')']⟩ ∈ (Page.ofNest 0 nestedCallNest).lines := by
  have hscript : Script.nest? "" nestedCall = some nestedCallNest := by with_unfolding_all rfl
  have hlines : (Page.ofNest 0 nestedCallNest).lines.map Line.text = ["x = f(a,".toList, "          b)".toList, []] := by
    decide +kernel
  obtain ⟨d', text, hrun, htext, hpieces, -, -⟩ :=
    nested_columns [] (runAt [] 0) "" hscript (Reached.new "" "") rfl
  exact ⟨d', text, hrun, htext, hpieces.trans hlines, by decide +kernel⟩

end Script

end ClientGen
