import ClientGen.Proofs.BlockSplice
import ClientGen.Proofs.ScopeOffsets

/-!
# Lines and the pieces they are written in

A text may be cut into pieces anywhere, also within a line, and be written piece by piece. A draft therefore remembers
whether a line begins where its text ends. It does so in two ways: with each character that is written, and, where text
is taken away, by reading it off the bytes that are left. **The two agree**, whatever is done to a draft.

* `Draft.put_lines`: what writing a text does to a draft, line by line.
* `Draft.Reached.atLineStart_iff`: a line begins where the text is empty or ends in a line end.
* `Script.session_reached`: scripts that succeed or fail leave drafts that can come about.
* `Script.lines_begin_indented`: all this together.
-/

namespace ClientGen

open Text

namespace Draft

/-- Lines as a draft takes them: after its indentation if they are not empty, the first one only if a line begins. -/
def laidOut (d : Draft) : List (List Char) → List Char
  | [] => []
  | first :: rest =>
    ['\n'].intercalate ((if d.atLineStart then padLine d.lead first else first) :: rest.map (padLine d.lead))

/-- **Writing goes by lines**, and beyond the text only the state of the line changes. -/
theorem put_lines (d : Draft) (s : String) : ∃ atLineStart column, d.put s = { d with
    text := d.text ++ (d.laidOut (pieces '\n' s.toList)).utf8Encode, atLineStart, column } := by
  obtain ⟨first, rest, hpieces, hlines⟩ := indented_lines d.lead d.atLineStart s.toList
  obtain ⟨text, atLineStart, column, hput⟩ := put_frame d s
  have htext := put_text d s
  rw [hput, toUTF8_ofList, hlines] at htext
  refine ⟨atLineStart, column, ?_⟩
  rw [hput, hpieces, laidOut, ← htext]

/-- **A line begins where the text is empty or ends in a line end**, in every draft that can come about. -/
theorem Reached.atLineStart_iff {d : Draft} (h : d.Reached) :
    d.atLineStart = true ↔ d.text.size = 0 ∨ d.text[d.text.size - 1]? = some 0x0a := by
  have hlined : d.atLineStart = (lastLine d.text d.text.size == 0) := h.lined
  rw [hlined, lastLine_beq_zero, Bool.or_eq_true_iff, beq_iff_eq, beq_iff_eq]

end Draft

namespace Script

open Draft

/-- Whether or not they fail, scripts leave drafts that can come about. -/
theorem session_reached (registry : Registry) (scripts : List Script) {d : Draft} (h : d.Reached) :
    (session registry scripts d).2.Reached := by
  induction scripts generalizing d with
  | nil => exact h
  | cons script rest ih => exact ih (runAt_reached registry maxDepth "" script h)

/-- **Lines begin with the indentation, however the text is cut.**
1. Writing two texts leaves what writing both at once does.
2. Of a text each line that is not empty comes after the indentation, the first one only where a line begins, and
   nothing comes before an empty line. Beyond the text only the state of the line changes.
3. In every draft that can come about, a line begins where the text is empty or ends in a line end.
4. Such are the drafts that any scripts leave, those that fail, that replace sections or that have blocks among them. -/
theorem lines_begin_indented :
    (∀ (d : Draft) (s t : String), d.put (s ++ t) = (d.put s).put t) ∧
    (∀ (d : Draft) (s : String), ∃ atLineStart column, d.put s = { d with
      text := d.text ++ (d.laidOut (pieces '\n' s.toList)).utf8Encode, atLineStart, column }) ∧
    (∀ d : Draft, d.Reached → (d.atLineStart = true ↔ d.text.size = 0 ∨ d.text[d.text.size - 1]? = some 0x0a)) ∧
    ∀ (registry : Registry) (scripts : List Script) (ns package : String),
      (session registry scripts { ns, package }).2.Reached := by
  refine ⟨put_append, put_lines, fun d h => h.atLineStart_iff, fun registry scripts ns package => ?_⟩
  exact session_reached registry scripts (.new ns package)

end Script

end ClientGen
