import ClientGen.Proofs.BlockSplice

/-!
# Docstrings are well delimited

Documentation is put between delimiters of three quotes after three rewritings: backslashes are doubled, each run of
three quotes is escaped, and so is a last quote that would meet the closing delimiter. Between them they leave no
three quotes in a row that are not escaped, and none at the end.

* `Text.spelled_docstringBody`: the three rewritings give such a spelling.
* `Draft.putDocs_delimited`: what is written for documentation.
-/

namespace ClientGen

namespace Text

/-! ### Reading -/

/-- Reads a docstring from behind its opening delimiter: its value, and the text behind the closing delimiter. The first
three quotes of which none is escaped close it. A backslash has to escape a backslash or a quote. -/
def readRest : List Char → Option (List Char × List Char)
  | '"' :: '"' :: '"' :: rest => some ([], rest)
  | '\\' :: '\\' :: rest => (readRest rest).map fun r => ('\\' :: r.1, r.2)
  | '\\' :: '"' :: rest => (readRest rest).map fun r => ('"' :: r.1, r.2)
  | '\\' :: _ => none
  | c :: rest => (readRest rest).map fun r => (c :: r.1, r.2)
  | [] => none

/-- Reads a docstring: its value, and the text behind it. -/
def readDocstring : List Char → Option (List Char × List Char)
  | '"' :: '"' :: '"' :: rest => readRest rest
  | _ => none

/-- The value of a docstring for the text where lines are indented by `lead`. -/
def docstringValue (lead : Nat) (cs : List Char) : List Char :=
  if '\n' ∈ cs then hang lead cs ++ '\n' :: List.replicate lead ' ' else cs

theorem readRest_cons {c : Char} {cs : List Char} (hbackslash : c ≠ '\\') (hquotes : ¬ ['"', '"', '"'] <+: c :: cs) :
    readRest (c :: cs) = (readRest cs).map fun r => (c :: r.1, r.2) := by
  rw [readRest.eq_def]
  split
  · next rest heq =>
    rw [heq] at hquotes
    exact absurd ⟨rest, rfl⟩ hquotes
  · next heq => exact absurd (List.cons.inj heq).1 hbackslash
  · next heq => exact absurd (List.cons.inj heq).1 hbackslash
  · next heq => exact absurd (List.cons.inj heq).1 hbackslash
  · next heq =>
    obtain ⟨rfl, rfl⟩ := List.cons.inj heq
    rfl
  · next heq => exact absurd heq (List.cons_ne_nil _ _)

/-! ### Spellings -/

/-- The second text spells the first one: backslashes are escaped, and so are quotes unless they stand alone or in twos
and something else follows them. -/
inductive Spelled : List Char → List Char → Prop where
  | nil : Spelled [] []
  | char {c : Char} {v w : List Char} (hquote : c ≠ '"') (hbackslash : c ≠ '\\') (h : Spelled v w) :
      Spelled (c :: v) (c :: w)
  | backslash {v w : List Char} (h : Spelled v w) : Spelled ('\\' :: v) ('\\' :: '\\' :: w)
  | quote {v w : List Char} (h : Spelled v w) : Spelled ('"' :: v) ('\\' :: '"' :: w)
  | bare {v w : List Char} (hne : w ≠ []) (hnext : ¬ ['"', '"'] <+: w) (h : Spelled v w) :
      Spelled ('"' :: v) ('"' :: w)

variable {v v' w w' : List Char}

/-- Two quotes at the front are not half of what follows, since a bare quote does not stand at the end. -/
theorem Spelled.two_quotes (h : Spelled v w) (hne : w ≠ []) {cs : List Char} (hbegins : ['"', '"'] <+: w ++ cs) :
    ['"', '"'] <+: w := by
  rcases w with _ | ⟨c, _ | ⟨c', w⟩⟩
  · exact absurd rfl hne
  · obtain ⟨rfl, -⟩ := List.cons_prefix_cons.1 hbegins
    cases h with
    | char hquote _ _ => exact absurd rfl hquote
    | bare hne _ _ => exact absurd rfl hne
  · obtain ⟨rfl, hone⟩ := List.cons_prefix_cons.1 hbegins
    obtain ⟨rfl, -⟩ := List.cons_prefix_cons.1 hone
    exact ⟨w, rfl⟩

/-- **What is spelled is read back**, up to the delimiter behind it. -/
theorem readRest_spelled (h : Spelled v w) (rest : List Char) :
    readRest (w ++ '"' :: '"' :: '"' :: rest) = some (v, rest) := by
  induction h with
  | nil => rfl
  | @char c v w hquote hbackslash _ ih =>
    have hquotes : ¬ ['"', '"', '"'] <+: c :: (w ++ '"' :: '"' :: '"' :: rest) :=
      fun hbegins => hquote (List.cons_prefix_cons.1 hbegins).1.symm
    rw [List.cons_append, readRest_cons hbackslash hquotes, ih]
    rfl
  | backslash _ ih | quote _ ih =>
    rw [List.cons_append, List.cons_append, readRest, ih]
    rfl
  | @bare v w hne hnext hw ih =>
    have hquotes : ¬ ['"', '"', '"'] <+: '"' :: (w ++ '"' :: '"' :: '"' :: rest) :=
      fun hbegins => hnext (hw.two_quotes hne (List.cons_prefix_cons.1 hbegins).2)
    rw [List.cons_append, readRest_cons (by decide) hquotes, ih]
    rfl

theorem Spelled.append (h : Spelled v w) (h' : Spelled v' w') : Spelled (v ++ v') (w ++ w') := by
  induction h with
  | nil => exact h'
  | char hquote hbackslash _ ih => exact ih.char hquote hbackslash
  | backslash _ ih => exact ih.backslash
  | quote _ ih => exact ih.quote
  | bare hne hnext hw ih =>
    exact ih.bare (List.append_ne_nil_of_left_ne_nil hne _) fun hbegins => hnext (hw.two_quotes hne hbegins)

theorem spelled_of_plain {cs : List Char} (h : ∀ c ∈ cs, c ≠ '"' ∧ c ≠ '\\') : Spelled cs cs := by
  induction cs with
  | nil => exact .nil
  | cons c cs ih =>
    obtain ⟨hc, hcs⟩ := List.forall_mem_cons.1 h
    exact (ih hcs).char hc.1 hc.2

theorem spelled_spaces (n : Nat) : Spelled (List.replicate n ' ') (List.replicate n ' ') := by
  apply spelled_of_plain
  intro c hc
  rw [List.eq_of_mem_replicate hc]
  decide

theorem cons_prefix_indented {n : Nat} {c : Char} (hc : c ≠ '\n') {front cs : List Char}
    (h : c :: front <+: Draft.indented n false cs) : ∃ rest, cs = c :: rest ∧ front <+: Draft.indented n false rest := by
  cases cs with
  | nil => exact absurd (List.prefix_nil.1 h) (List.cons_ne_nil _ _)
  | cons x rest =>
    by_cases hx : x = '\n'
    · subst hx
      rw [Draft.indented_newline] at h
      exact absurd (List.cons_prefix_cons.1 h).1 hc
    · rw [Draft.indented_char _ _ hx] at h
      obtain ⟨rfl, hfront⟩ := List.cons_prefix_cons.1 h
      exact ⟨rest, rfl, hfront⟩

theorem indented_two_quotes {n : Nat} {cs : List Char} (h : ['"', '"'] <+: Draft.indented n false cs) :
    ['"', '"'] <+: cs := by
  obtain ⟨rest, rfl, hone⟩ := cons_prefix_indented (by decide) h
  obtain ⟨rest', rfl, -⟩ := cons_prefix_indented (by decide) hone
  exact ⟨rest', rfl⟩

theorem indented_ne_nil {n : Nat} {start : Bool} {cs : List Char} (h : cs ≠ []) : Draft.indented n start cs ≠ [] := by
  rw [← List.length_pos_iff] at h ⊢
  rw [Draft.length_indented]
  omega

theorem Spelled.pad (h : Spelled v w) (n : Nat) (start : Bool) :
    Spelled ((if start then List.replicate n ' ' else []) ++ v) ((if start then List.replicate n ' ' else []) ++ w) := by
  cases start with
  | true => exact (spelled_spaces n).append h
  | false => exact h

/-- **Indentation keeps a spelling**: no line begins inside of what spells a character. -/
theorem Spelled.indented (h : Spelled v w) (n : Nat) (start : Bool) :
    Spelled (Draft.indented n start v) (Draft.indented n start w) := by
  induction h generalizing start with
  | nil => exact .nil
  | @char c v w hquote hbackslash _ ih =>
    by_cases hc : c = '\n'
    · subst hc
      rw [Draft.indented_newline, Draft.indented_newline]
      exact (ih true).char hquote hbackslash
    · rw [Draft.indented_char _ _ hc, Draft.indented_char _ _ hc]
      exact ((ih false).char hquote hbackslash).pad n start
  | backslash _ ih =>
    rw [Draft.indented_char _ _ (by decide), Draft.indented_char _ _ (by decide), Draft.indented_char _ false (by decide)]
    exact (ih false).backslash.pad n start
  | quote _ ih =>
    rw [Draft.indented_char _ _ (by decide), Draft.indented_char _ _ (by decide), Draft.indented_char _ false (by decide)]
    exact (ih false).quote.pad n start
  | bare hne hnext _ ih =>
    rw [Draft.indented_char _ _ (by decide), Draft.indented_char _ _ (by decide)]
    exact ((ih false).bare (indented_ne_nil hne) fun hbegins => hnext (indented_two_quotes hbegins)).pad n start

theorem Spelled.newline_mem (h : Spelled v w) : '\n' ∈ w ↔ '\n' ∈ v := by
  induction h with
  | nil => rfl
  | char _ _ _ ih => rw [List.mem_cons, List.mem_cons, ih]
  | backslash _ ih => simp [ih]
  | quote _ ih => simp [ih]
  | bare _ _ _ ih => simp [ih]

/-! ### The rewritings -/

theorem doubleBackslashes_cons (c : Char) (cs : List Char) :
    doubleBackslashes (c :: cs) = (if c = '\\' then ['\\', '\\'] else [c]) ++ doubleBackslashes cs := rfl

theorem doubleBackslashes_quote {cs rest : List Char} (h : doubleBackslashes cs = '"' :: rest) :
    ∃ cs', cs = '"' :: cs' ∧ rest = doubleBackslashes cs' := by
  cases cs with
  | nil => cases h
  | cons c cs =>
    rw [doubleBackslashes_cons] at h
    split at h
    · exact absurd (List.cons.inj h).1 (by decide)
    · obtain ⟨rfl, rfl⟩ := List.cons.inj h
      exact ⟨cs, rfl, rfl⟩

theorem escapeDelimiters_cons {c : Char} {cs : List Char} (h : ∀ rest, c = '"' → cs ≠ '"' :: '"' :: rest) :
    escapeDelimiters (c :: cs) = c :: escapeDelimiters cs := by
  rw [escapeDelimiters.eq_def]
  split
  · next rest heq =>
    obtain ⟨rfl, rfl⟩ := List.cons.inj heq
    exact absurd rfl (h rest rfl)
  · next heq =>
    obtain ⟨rfl, rfl⟩ := List.cons.inj heq
    rfl
  · next heq => exact absurd heq (List.cons_ne_nil _ _)

theorem Spelled.two_quotes_value (h : Spelled v ('"' :: '"' :: w)) : ∃ v', v = '"' :: '"' :: v' := by
  cases h with
  | char hquote _ _ => exact absurd rfl hquote
  | bare _ _ h =>
    cases h with
    | char hquote _ _ => exact absurd rfl hquote
    | @bare v' _ _ _ _ => exact ⟨v', rfl⟩

/-- Up to two quotes are left bare at the end before the last one is escaped. -/
theorem spelled_escapeDelimiters (cs : List Char) : ∃ v w quotes, cs = v ++ quotes ∧
    escapeDelimiters (doubleBackslashes cs) = w ++ quotes ∧ Spelled v w ∧
    (quotes = [] ∨ quotes = ['"'] ∨ quotes = ['"', '"']) := by
  induction cs using escapeDelimiters.induct with
  | case1 rest ih =>
    obtain ⟨v, w, quotes, rfl, hw, hspelled, hquotes⟩ := ih
    refine ⟨_, _, quotes, rfl, ?_, hspelled.quote.quote.quote, hquotes⟩
    show escapeDelimiters ('"' :: '"' :: '"' :: doubleBackslashes (v ++ quotes)) = _
    rw [escapeDelimiters, hw]
    rfl
  | case2 c rest hthree ih =>
    obtain ⟨v, w, quotes, rfl, hw, hspelled, hquotes⟩ := ih
    rw [doubleBackslashes_cons]
    by_cases hbackslash : c = '\\'
    · subst hbackslash
      refine ⟨_, _, quotes, rfl, ?_, hspelled.backslash, hquotes⟩
      rw [if_pos rfl]
      show escapeDelimiters ('\\' :: '\\' :: doubleBackslashes (v ++ quotes)) = _
      rw [escapeDelimiters_cons fun _ h => absurd h (by decide), escapeDelimiters_cons fun _ h => absurd h (by decide), hw]
      rfl
    have hfirst : escapeDelimiters ((if c = '\\' then ['\\', '\\'] else [c]) ++ doubleBackslashes (v ++ quotes)) =
        c :: (w ++ quotes) := by
      rw [if_neg hbackslash, ← hw]
      refine escapeDelimiters_cons fun rest hc hquotes => ?_
      obtain ⟨cs, hcs, hrest⟩ := doubleBackslashes_quote hquotes
      obtain ⟨cs', rfl, -⟩ := doubleBackslashes_quote hrest.symm
      exact hthree cs' hc hcs
    by_cases hquote : c = '"'
    · subst hquote
      -- a quote with only quotes after it joins them, and is not the third: three are escaped together
      by_cases hempty : w = []
      · subst hempty
        cases hspelled
        refine ⟨[], [], '"' :: quotes, rfl, hfirst, .nil, ?_⟩
        rcases hquotes with rfl | rfl | rfl
        · exact .inr (.inl rfl)
        · exact .inr (.inr rfl)
        · exact (hthree [] rfl rfl).elim
      · refine ⟨_, _, quotes, rfl, hfirst, hspelled.bare hempty ?_, hquotes⟩
        rintro ⟨w', rfl⟩
        obtain ⟨v', rfl⟩ := hspelled.two_quotes_value
        exact hthree (v' ++ quotes) rfl rfl
    · exact ⟨_, _, quotes, rfl, hfirst, hspelled.char hquote hbackslash, hquotes⟩
  | case3 => exact ⟨[], [], [], rfl, rfl, .nil, .inl rfl⟩

/-- Does a backslash at the end wait for what it escapes? `pending` tells whether one does at the beginning. -/
def waits (pending : Bool) (cs : List Char) : Bool := cs.foldl (fun pending c => c == '\\' && !pending) pending

theorem waits_cons (pending : Bool) (c : Char) (cs : List Char) :
    waits pending (c :: cs) = waits (c == '\\' && !pending) cs := rfl

theorem waits_eq (cs : List Char) : waits false cs = ((cs.reverse.takeWhile (· == '\\')).length % 2 == 1) := by
  induction cs using List.reverseRecOn with
  | nil => rfl
  | append_singleton cs c ih =>
    have hwaits : waits false (cs ++ [c]) = (c == '\\' && !waits false cs) := List.foldl_concat ..
    rw [hwaits, ih, List.reverse_append, List.reverse_singleton, List.singleton_append, List.takeWhile_cons]
    cases hc : c == '\\' with
    | false => rfl
    | true =>
      rw [if_pos rfl, List.length_cons, Bool.true_and]
      rcases Nat.mod_two_eq_zero_or_one (cs.reverse.takeWhile (· == '\\')).length with h | h
      · rw [Nat.add_mod, h]
        rfl
      · rw [Nat.add_mod, h]
        rfl

theorem escapeFinalQuote_concat (cs : List Char) (c : Char) : escapeFinalQuote (cs ++ [c]) =
    if c = '"' ∧ waits false cs = false then cs ++ ['\\', '"'] else cs ++ [c] := by
  rw [escapeFinalQuote, List.reverse_append, List.reverse_singleton, List.singleton_append]
  split
  · next front heq =>
    obtain ⟨rfl, rfl⟩ := List.cons.inj heq
    rw [waits_eq]
    rcases Nat.mod_two_eq_zero_or_one (cs.reverse.takeWhile (· == '\\')).length with h | h
    · rw [h, if_pos (beq_self_eq_true 0), if_pos ⟨rfl, rfl⟩, List.reverse_cons, List.reverse_cons,
        List.reverse_reverse, List.append_assoc]
      rfl
    · rw [h, if_neg (by decide), if_neg (by simp)]
  · next hne => rw [if_neg fun h => hne cs.reverse (by rw [h.1])]

theorem Spelled.not_waits (h : Spelled v w) : waits false w = false := by
  induction h with
  | nil => rfl
  | @char c v w _ hbackslash _ ih => rw [waits_cons, beq_eq_false_iff_ne.2 hbackslash, Bool.false_and, ih]
  | backslash _ ih => exact ih
  | quote _ ih => exact ih
  | bare _ _ _ ih => exact ih

theorem Spelled.waits_of_quote (h : Spelled v w) {front : List Char} (hw : w = front ++ ['"']) :
    waits false front = true := by
  induction h generalizing front with
  | nil => exact absurd hw.symm (List.append_ne_nil_of_right_ne_nil _ (List.cons_ne_nil _ _))
  | @char c v w hquote hbackslash _ ih =>
    cases front with
    | nil => exact absurd (List.cons.inj hw).1 hquote
    | cons x front =>
      obtain ⟨rfl, hrest⟩ := List.cons.inj hw
      rw [waits_cons, beq_eq_false_iff_ne.2 hbackslash, Bool.false_and, ih hrest]
  | backslash _ ih =>
    rcases front with _ | ⟨x, _ | ⟨y, front⟩⟩
    · exact absurd (List.cons.inj hw).1 (by decide)
    · exact absurd (List.cons.inj (List.cons.inj hw).2).1 (by decide)
    · obtain ⟨rfl, hmore⟩ := List.cons.inj hw
      obtain ⟨rfl, hrest⟩ := List.cons.inj hmore
      show waits false front = true
      exact ih hrest
  | quote _ ih =>
    rcases front with _ | ⟨x, _ | ⟨y, front⟩⟩
    · exact absurd (List.cons.inj hw).1 (by decide)
    · obtain ⟨rfl, -⟩ := List.cons.inj hw
      rfl
    · obtain ⟨rfl, hmore⟩ := List.cons.inj hw
      obtain ⟨rfl, hrest⟩ := List.cons.inj hmore
      show waits false front = true
      exact ih hrest
  | bare hne _ _ ih =>
    cases front with
    | nil => exact absurd (List.cons.inj hw).2 hne
    | cons x front =>
      obtain ⟨rfl, hrest⟩ := List.cons.inj hw
      show waits false front = true
      exact ih hrest

/-- **The three rewritings give a spelling.** -/
theorem spelled_docstringBody (cs : List Char) : Spelled cs (docstringBody cs) := by
  obtain ⟨v, w, quotes, rfl, hw, hspelled, hquotes⟩ := spelled_escapeDelimiters cs
  rw [docstringBody, hw]
  rcases hquotes with rfl | rfl | rfl
  · rw [List.append_nil, List.append_nil]
    rcases List.eq_nil_or_concat' w with rfl | ⟨front, c, rfl⟩
    · exact hspelled
    · rw [escapeFinalQuote_concat, if_neg]
      · exact hspelled
      · rintro ⟨rfl, hwaits⟩
        rw [hspelled.waits_of_quote rfl] at hwaits
        cases hwaits
  · rw [escapeFinalQuote_concat, if_pos ⟨rfl, hspelled.not_waits⟩]
    exact hspelled.append Spelled.nil.quote
  · have hsplit : w ++ ['"', '"'] = (w ++ ['"']) ++ ['"'] := by rw [List.append_assoc]; rfl
    have hwaits : waits false (w ++ ['"']) = false := by
      unfold waits
      rw [List.foldl_append]
      rfl
    rw [hsplit, escapeFinalQuote_concat, if_pos ⟨rfl, hwaits⟩, List.append_assoc]
    exact hspelled.append (Spelled.nil.quote.bare (List.cons_ne_nil _ _) (by decide))

end Text

namespace Draft

open Text

/-! ### Documentation -/

variable {d : Draft} {docs : String}

theorem trimChars_ne_nil {cs : List Char} (h : ∃ c ∈ cs, isBlank c = false) : trimChars cs ≠ [] := by
  obtain ⟨c, hc, hblank⟩ := h
  intro hempty
  unfold trimChars dropEndWhile at hempty
  rw [List.reverse_eq_nil_iff, List.dropWhile_eq_nil_iff] at hempty
  rw [← List.takeWhile_append_dropWhile (p := isBlank) (l := cs), List.mem_append] at hc
  have htrue : isBlank c = true := by
    rcases hc with hc | hc
    · exact (List.mem_takeWhile_imp hc)
    · exact hempty c (List.mem_reverse.2 hc)
  rw [hblank] at htrue
  cases htrue

/-- What stands between the delimiters of a docstring where lines are indented by `lead`. -/
def docstringText (lead : Nat) (cs : List Char) : List Char :=
  if '\n' ∈ cs then indented lead false (docstringBody cs) ++ '\n' :: List.replicate lead ' ' else docstringBody cs

theorem spelled_docstringText (lead : Nat) (cs : List Char) : Spelled (docstringValue lead cs) (docstringText lead cs) := by
  have hbody := spelled_docstringBody cs
  unfold docstringValue docstringText
  split
  · rw [← indented_eq_hang]
    exact (hbody.indented lead false).append ((spelled_spaces lead).char (by decide) (by decide))
  · exact hbody

theorem indented_of_no_newline (n : Nat) {cs : List Char} (h : '\n' ∉ cs) (rest : List Char) :
    indented n false (cs ++ rest) = cs ++ indented n false rest := by
  induction cs with
  | nil => rfl
  | cons c cs ih =>
    rw [List.mem_cons, not_or] at h
    rw [List.cons_append, indented_char _ _ (Ne.symm h.1), ih h.2]
    rfl

theorem putDocs_text (hstart : d.atLineStart = true) (hdocs : trimChars docs.toList ≠ []) :
    (d.putDocs docs).text = d.text ++ (List.replicate d.lead ' ' ++ (['"', '"', '"'] ++
      docstringText d.lead (trimChars docs.toList) ++ ['"', '"', '"']) ++ ['\n']).utf8Encode := by
  obtain ⟨cs, hcs⟩ : ∃ cs, trimChars docs.toList = cs := ⟨_, rfl⟩
  rw [hcs] at hdocs ⊢
  have hnewline : (docstringBody cs).contains '\n' = decide ('\n' ∈ cs) := by
    rw [List.contains_eq_mem]
    exact decide_eq_decide.2 (spelled_docstringBody cs).newline_mem
  have hput : d.putDocs docs = d.put ("\"\"\"" ++ String.ofList (docstringBody cs) ++
      if '\n' ∈ cs then "\n\"\"\"\n" else "\"\"\"\n") := by
    obtain ⟨c, rest, rfl⟩ := List.exists_cons_of_ne_nil hdocs
    unfold putDocs
    rw [hcs]
    dsimp only
    rw [hnewline]
    simp only [decide_eq_true_eq]
  have hopen : ∀ rest, indented d.lead true (['"', '"', '"'] ++ rest) =
      List.replicate d.lead ' ' ++ (['"', '"', '"'] ++ indented d.lead false rest) := fun _ => rfl
  have hquotes : "\"\"\"".toList = ['"', '"', '"'] := rfl
  have hbody : (String.ofList (docstringBody cs)).toList = docstringBody cs := String.toList_ofList
  rw [hput, put_text, toUTF8_ofList, hstart, String.toList_append, String.toList_append, hquotes, hbody, List.append_assoc,
    hopen, docstringText]
  split
  · have hclose : "\n\"\"\"\n".toList = '\n' :: ['"', '"', '"', '\n'] := rfl
    have hlast : indented d.lead true ['"', '"', '"', '\n'] = List.replicate d.lead ' ' ++ ['"', '"', '"', '\n'] := rfl
    rw [hclose, indented_append_newline, hlast]
    simp only [List.append_assoc, List.cons_append, List.nil_append]
  · next hnone =>
    have hclose : "\"\"\"\n".toList = ['"', '"', '"', '\n'] := rfl
    rw [← (spelled_docstringBody cs).newline_mem] at hnone
    have hlast : indented d.lead false ['"', '"', '"', '\n'] = ['"', '"', '"', '\n'] := rfl
    rw [hclose, indented_of_no_newline _ hnone, hlast]
    simp only [List.append_assoc, List.cons_append, List.nil_append]

/-- **Docstrings are well delimited.** At the beginning of a line, documentation that is not blank is written as a
docstring and a line end. Read from left to right it closes at its last three quotes, whatever follows, and its value is
the documentation without the blanks around it; if that has several lines, then each that is not empty is indented after
the first, and the closing delimiter stands on a line of its own. -/
theorem putDocs_delimited (hstart : d.atLineStart = true) (hdocs : ∃ c ∈ docs.toList, isBlank c = false) :
    ∃ literal : List Char,
      (d.putDocs docs).text = d.text ++ (List.replicate d.lead ' ' ++ literal ++ ['\n']).utf8Encode ∧
      ∀ rest, readDocstring (literal ++ rest) = some (docstringValue d.lead (trimChars docs.toList), rest) := by
  refine ⟨_, putDocs_text hstart (trimChars_ne_nil hdocs), fun rest => ?_⟩
  rw [List.append_assoc, List.append_assoc]
  exact readRest_spelled (spelled_docstringText _ _) rest

/-- Documentation of two lines that ends in a quote and has a backslash and three quotes in it. -/
def quotedDocs : String := " Say \"\"\"\n\\\"hi\"\"  "

theorem putDocs_delimited_quotes : ∃ literal : List Char,
    (Script.indentedDraft.putDocs quotedDocs).text =
      Script.indentedDraft.text ++ (List.replicate 4 ' ' ++ literal ++ ['\n']).utf8Encode ∧
    ∀ rest, readDocstring (literal ++ rest) = some ("Say \"\"\"\n    \\\"hi\"\"\n    ".toList, rest) := by
  have hlead : Script.indentedDraft.lead = 4 := by decide +kernel
  have hvalue : docstringValue 4 (trimChars quotedDocs.toList) = "Say \"\"\"\n    \\\"hi\"\"\n    ".toList := by
    decide +kernel
  have hdocs : ∃ c ∈ quotedDocs.toList, isBlank c = false := ⟨'S', by decide +kernel, by decide +kernel⟩
  have h := @putDocs_delimited Script.indentedDraft quotedDocs (by decide +kernel) hdocs
  rw [hlead, hvalue] at h
  exact h

end Draft

end ClientGen
