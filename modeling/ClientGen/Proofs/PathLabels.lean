import ClientGen.Proofs.ClassFields

/-!
# Labels of a request path

A path is a row of characters and labels, where a label is what stands between an opening brace and the next brace, if
that one closes. The function that writes a request replaces the labels by a chain of calls, each of which goes over the
whole text.

* `replaceAll_parts`: a call replaces one label, unless texts that were put in before spell it between stray braces.
* `replaceEach_iff`: the chain makes the path with all labels filled in **exactly if each label stands in one form**.
-/

namespace ClientGen.Package

open Text

/-! ### Replacing a text -/

/-- The text with `new` for each `old`, from the left. Of an `old` that was found, `skip` characters are still to be
passed over. -/
def replaceAll (old new : List Char) : Nat → List Char → List Char
  | _, [] => []
  | skip + 1, _ :: rest => replaceAll old new skip rest
  | 0, c :: rest =>
    if old.isPrefixOf (c :: rest) then new ++ replaceAll old new (old.length - 1) rest
    else c :: replaceAll old new 0 rest

variable {old new : List Char}

theorem replaceAll_skip (xs rest : List Char) :
    replaceAll old new xs.length (xs ++ rest) = replaceAll old new 0 rest := by
  induction xs with
  | nil => rfl
  | cons x xs ih => rw [List.length_cons, List.cons_append, replaceAll, ih]

theorem replaceAll_found (c : Char) (cs rest : List Char) :
    replaceAll (c :: cs) new 0 (c :: cs ++ rest) = new ++ replaceAll (c :: cs) new 0 rest := by
  have hfound : (c :: cs).isPrefixOf (c :: (cs ++ rest)) = true := by
    rw [List.isPrefixOf_iff_prefix]
    exact List.prefix_append (c :: cs) rest
  rw [List.cons_append, replaceAll, if_pos hfound, List.length_cons, Nat.add_sub_cancel, replaceAll_skip]

theorem replaceAll_other {c : Char} {rest : List Char} (h : ¬ old <+: c :: rest) :
    replaceAll old new 0 (c :: rest) = c :: replaceAll old new 0 rest := by
  rw [← List.isPrefixOf_iff_prefix] at h
  rw [replaceAll, if_neg h]

theorem hasPart_iff {part cs : List Char} : hasPart part cs = true ↔ part <:+: cs := by
  induction cs with
  | nil => simp [hasPart]
  | cons c rest ih => rw [hasPart, Bool.or_eq_true, List.isPrefixOf_iff_prefix, ih, List.infix_cons_iff]

/-! ### The parts of a path -/

/-- No brace is among the characters. -/
def BraceFree (cs : List Char) : Prop := '\x7b' ∉ cs ∧ '\x7d' ∉ cs

theorem braceFree_cons {c : Char} {cs : List Char} :
    BraceFree (c :: cs) ↔ (c ≠ '\x7b' ∧ c ≠ '\x7d') ∧ BraceFree cs := by
  simp only [BraceFree, List.mem_cons, not_or, ne_eq]
  rw [eq_comm, eq_comm (a := '\x7d')]
  tauto

/-- A character that stands for itself, or a label with what is between its braces. -/
inductive PathPart where
  | char (c : Char)
  | label (inner : List Char)
deriving DecidableEq

namespace PathPart

def chars : PathPart → List Char
  | char c => [c]
  | label inner => inBraces inner

/-- What stands between the braces of a label. -/
def inner? : PathPart → Option (List Char)
  | char _ => none
  | label inner => some inner

end PathPart

/-- The characters up to a closing brace, if no other brace comes first, and the parts after it. -/
def takeInner : List PathPart → Option (List Char × List PathPart)
  | .char c :: rest =>
    if c = '\x7d' then some ([], rest)
    else if c = '\x7b' then none
    else (takeInner rest).map fun r => (c :: r.1, r.2)
  | _ => none

/-- The characters and labels of a path. -/
def pathParts : List Char → List PathPart
  | [] => []
  | c :: rest =>
    if c = '\x7b' then
      match takeInner (pathParts rest) with
      | some (inner, after) => .label inner :: after
      | none => .char c :: pathParts rest
    else .char c :: pathParts rest

variable {ps after : List PathPart} {inner : List Char}

theorem takeInner_chars (h : BraceFree inner) (after : List PathPart) :
    takeInner (inner.map .char ++ .char '\x7d' :: after) = some (inner, after) := by
  induction inner with
  | nil => rfl
  | cons c inner ih =>
    obtain ⟨⟨hopen, hclose⟩, hinner⟩ := braceFree_cons.1 h
    rw [List.map_cons, List.cons_append, takeInner, if_neg hclose, if_neg hopen, ih hinner]
    rfl

theorem takeInner_some (h : takeInner ps = some (inner, after)) :
    BraceFree inner ∧ ps = inner.map .char ++ .char '\x7d' :: after := by
  induction ps generalizing inner with
  | nil => cases h
  | cons p ps ih =>
    cases p with
    | label other => cases h
    | char c =>
      rw [takeInner] at h
      split at h
      · rename_i hclose
        cases h
        exact ⟨by simp [BraceFree], by rw [hclose]; rfl⟩
      · split at h
        · cases h
        · rename_i hclose hopen
          obtain ⟨⟨rest, after'⟩, hrest, heq⟩ := Option.map_eq_some_iff.1 h
          cases heq
          obtain ⟨hfree, rfl⟩ := ih hrest
          exact ⟨braceFree_cons.2 ⟨⟨hopen, hclose⟩, hfree⟩, rfl⟩

/-- What a character makes of the parts after it: it begins a label, or stands for itself. -/
theorem pathParts_cons (c : Char) (rest : List Char) :
    (∃ inner after, c = '\x7b' ∧ BraceFree inner ∧ pathParts rest = inner.map .char ++ .char '\x7d' :: after ∧
      pathParts (c :: rest) = .label inner :: after) ∨
    (c = '\x7b' → takeInner (pathParts rest) = none) ∧ pathParts (c :: rest) = .char c :: pathParts rest := by
  rw [pathParts]
  by_cases hc : c = '\x7b'
  · rw [if_pos hc]
    cases htake : takeInner (pathParts rest) with
    | none => exact .inr ⟨fun _ => rfl, rfl⟩
    | some r =>
      obtain ⟨hfree, heq⟩ := takeInner_some htake
      exact .inl ⟨r.1, r.2, hc, hfree, heq, rfl⟩
  · exact .inr ⟨fun h => absurd h hc, if_neg hc⟩

theorem pathParts_other {c : Char} (h : c ≠ '\x7b') (rest : List Char) :
    pathParts (c :: rest) = .char c :: pathParts rest := by
  rw [pathParts, if_neg h]

/-- The characters of parts. -/
def charsOf (ps : List PathPart) : List Char := ps.flatMap PathPart.chars

@[simp] theorem charsOf_append (ps qs : List PathPart) : charsOf (ps ++ qs) = charsOf ps ++ charsOf qs :=
  List.flatMap_append

@[simp] theorem charsOf_cons (p : PathPart) (ps : List PathPart) : charsOf (p :: ps) = p.chars ++ charsOf ps :=
  List.flatMap_cons

@[simp] theorem charsOf_chars (cs : List Char) : charsOf (cs.map .char) = cs := by
  induction cs with
  | nil => rfl
  | cons c cs ih => rw [List.map_cons, charsOf_cons, ih]; rfl

/-- **The parts of a path make up the path.** -/
theorem charsOf_pathParts (path : List Char) : charsOf (pathParts path) = path := by
  induction path with
  | nil => rfl
  | cons c rest ih =>
    obtain ⟨inner, after, rfl, -, hrest, heq⟩ | ⟨-, heq⟩ := pathParts_cons c rest
    · rw [hrest, charsOf_append, charsOf_cons, charsOf_chars] at ih
      rw [heq, charsOf_cons, ← ih]
      simp [PathPart.chars, inBraces]
    · rw [heq, charsOf_cons, ih]
      rfl

theorem braceFree_of_mem {path : List Char} (h : .label inner ∈ pathParts path) : BraceFree inner := by
  induction path with
  | nil => cases h
  | cons c rest ih =>
    obtain ⟨found, after, -, hfree, hrest, heq⟩ | ⟨-, heq⟩ := pathParts_cons c rest
    · rw [heq] at h
      rcases List.mem_cons.1 h with h | h
      · cases h
        exact hfree
      · exact ih (by rw [hrest]; simp [h])
    · rw [heq] at h
      exact ih (List.mem_of_ne_of_mem (by simp) h)

theorem pathParts_chars (h : BraceFree inner) (rest : List Char) :
    pathParts (inner ++ '\x7d' :: rest) = inner.map .char ++ .char '\x7d' :: pathParts rest := by
  induction inner with
  | nil => exact pathParts_other (by decide) rest
  | cons c inner ih =>
    obtain ⟨⟨hopen, -⟩, hinner⟩ := braceFree_cons.1 h
    rw [List.cons_append, pathParts_other hopen, ih hinner]
    rfl

/-- **What stands in braces is a label.** -/
theorem label_mem_of_part (h : BraceFree inner) {path : List Char} (hpath : inBraces inner <:+: path) :
    .label inner ∈ pathParts path := by
  induction path with
  | nil => simp [inBraces] at hpath
  | cons c rest ih =>
    rcases List.infix_cons_iff.1 hpath with hstart | hpart
    · obtain ⟨after, hafter⟩ := hstart
      have hpath : c :: rest = '\x7b' :: (inner ++ '\x7d' :: after) := by
        rw [← hafter]
        simp [inBraces]
      cases hpath
      rw [pathParts, if_pos rfl, pathParts_chars h, takeInner_chars h]
      exact List.mem_cons_self
    · have hmem := ih hpart
      obtain ⟨found, after, -, -, hrest, heq⟩ | ⟨-, heq⟩ := pathParts_cons c rest
      · rw [hrest] at hmem
        rw [heq]
        exact List.mem_cons_of_mem _ (by simpa using hmem)
      · rw [heq]
        exact List.mem_cons_of_mem _ hmem

theorem part_of_label_mem {ps : List PathPart} (h : .label inner ∈ ps) : inBraces inner <:+: charsOf ps := by
  obtain ⟨before, after, rfl⟩ := List.append_of_mem h
  rw [charsOf_append, charsOf_cons]
  exact ⟨charsOf before, charsOf after, by simp [PathPart.chars]⟩

/-- The parts are a label where they can be: no label is left among the characters. -/
theorem not_hidden (h : BraceFree inner) (path : List Char) : ¬ (inBraces inner).map .char <:+: pathParts path := by
  induction path with
  | nil => simp [pathParts, inBraces]
  | cons c rest ih =>
    obtain ⟨found, after, -, -, hrest, heq⟩ | ⟨hnone, heq⟩ := pathParts_cons c rest
    · rw [heq, List.infix_cons_iff, not_or]
      refine ⟨fun hstart => ?_, fun hpart => ih ?_⟩
      · simp [inBraces] at hstart
      · rw [hrest]
        exact hpart.trans ⟨found.map .char ++ [.char '\x7d'], [], by simp⟩
    · rw [heq, List.infix_cons_iff, not_or]
      refine ⟨fun hstart => ?_, ih⟩
      obtain ⟨after, hafter⟩ := hstart
      have hcons : .char '\x7b' :: (inner.map .char ++ .char '\x7d' :: after) = .char c :: pathParts rest := by
        rw [← hafter]
        simp [inBraces]
      obtain ⟨hc, hrest⟩ := List.cons.inj hcons
      cases hc
      rw [← hrest, takeInner_chars h] at hnone
      cases hnone rfl

/-! ### Filling in labels -/

/-- The parts with a text in place of a label. -/
def fillLabel (inner text : List Char) (ps : List PathPart) : List PathPart :=
  ps.flatMap fun p => if p = .label inner then text.map .char else [p]

theorem fillLabel_cons (text : List Char) (p : PathPart) (ps : List PathPart) :
    fillLabel inner text (p :: ps) = (if p = .label inner then text.map .char else [p]) ++ fillLabel inner text ps :=
  List.flatMap_cons

/-- Two texts in braces that begin alike are one, whatever follows them. -/
theorem inBraces_start {other rest : List Char} (h : BraceFree inner) (hother : BraceFree other)
    (hstart : inBraces inner <+: inBraces other ++ rest) : inner = other := by
  obtain ⟨after, hafter⟩ := hstart
  have hcut : takeInner ((inner ++ '\x7d' :: after).map .char) = takeInner ((other ++ '\x7d' :: rest).map .char) := by
    have heq : inner ++ '\x7d' :: after = other ++ '\x7d' :: rest := by simpa [inBraces] using hafter
    rw [heq]
  simp only [List.map_append, List.map_cons, takeInner_chars h, takeInner_chars hother, Option.some.injEq,
    Prod.mk.injEq] at hcut
  exact hcut.1

/-- The characters of a label are passed over if it is not the one to be replaced. -/
theorem replaceAll_label {other rest : List Char} (h : BraceFree inner) (hother : BraceFree other)
    (hne : inner ≠ other) :
    replaceAll (inBraces inner) new 0 (inBraces other ++ rest) =
      inBraces other ++ replaceAll (inBraces inner) new 0 rest := by
  -- no other character of the label opens a brace
  have hpass : ∀ cs : List Char, '\x7b' ∉ cs → replaceAll (inBraces inner) new 0 (cs ++ rest) =
      cs ++ replaceAll (inBraces inner) new 0 rest := by
    intro cs hcs
    induction cs with
    | nil => rfl
    | cons c cs ih =>
      rw [List.mem_cons, not_or] at hcs
      rw [List.cons_append, replaceAll_other, ih hcs.2, List.cons_append]
      intro hstart
      simp only [inBraces, List.cons_append, List.cons_prefix_cons] at hstart
      exact hcs.1 hstart.1
  have hfirst : ¬ inBraces inner <+: '\x7b' :: (other ++ ['\x7d'] ++ rest) := fun hstart =>
    hne (inBraces_start h hother (by simpa [inBraces] using hstart))
  have hrest : '\x7b' ∉ other ++ ['\x7d'] := by simp [hother.1]
  rw [show inBraces other ++ rest = '\x7b' :: (other ++ ['\x7d'] ++ rest) by simp [inBraces], replaceAll_other hfirst,
    hpass _ hrest]
  simp [inBraces]

/-- A label that the characters of parts begin with is the first part, or hides in the first parts. -/
theorem hidden_of_start (h : BraceFree inner) {c : Char}
    (hstart : inBraces inner <+: charsOf (.char c :: ps)) : (inBraces inner).map .char <+: .char c :: ps := by
  have hspell : ∀ (cs : List Char), '\x7b' ∉ cs → ∀ ps : List PathPart, cs <+: charsOf ps → cs.map .char <+: ps := by
    intro cs hcs
    induction cs with
    | nil => exact fun ps _ => List.nil_prefix
    | cons d cs ih =>
      rw [List.mem_cons, not_or] at hcs
      intro ps hps
      cases ps with
      | nil => simp [charsOf] at hps
      | cons p ps =>
        cases p with
        | char e =>
          simp only [charsOf_cons, PathPart.chars, List.cons_append, List.nil_append, List.cons_prefix_cons] at hps
          rw [List.map_cons, List.cons_prefix_cons]
          exact ⟨by rw [hps.1], ih hcs.2 ps hps.2⟩
        | label other =>
          simp only [charsOf_cons, PathPart.chars, inBraces, List.cons_append, List.cons_prefix_cons] at hps
          exact absurd hps.1.symm hcs.1
  simp only [charsOf_cons, PathPart.chars, inBraces, List.cons_append, List.nil_append,
    List.cons_prefix_cons] at hstart
  have hrest := hspell (inner ++ ['\x7d']) (by simp [h.1]) ps hstart.2
  rw [inBraces, List.cons_append, List.map_cons, List.cons_prefix_cons]
  exact ⟨by rw [hstart.1], hrest⟩

/-- **A call replaces one label**, unless its characters are also spelled otherwise. -/
theorem replaceAll_parts (h : BraceFree inner) (hlabels : ∀ other, .label other ∈ ps → BraceFree other)
    (hhidden : ¬ (inBraces inner).map .char <:+: ps) :
    replaceAll (inBraces inner) new 0 (charsOf ps) = charsOf (fillLabel inner new ps) := by
  induction ps with
  | nil => rfl
  | cons p ps ih =>
    rw [List.infix_cons_iff, not_or] at hhidden
    have ih := ih (fun other hother => hlabels other (List.mem_cons_of_mem _ hother)) hhidden.2
    rw [fillLabel_cons, charsOf_append, ← ih]
    cases p with
    | char c =>
      -- the token is found here only if characters spell it
      rw [if_neg (by simp)]
      exact replaceAll_other fun hstart => hhidden.1 (hidden_of_start h hstart)
    | label other =>
      by_cases hsame : other = inner
      · rw [if_pos (by rw [hsame]), charsOf_chars, hsame]
        exact replaceAll_found '\x7b' (inner ++ ['\x7d']) (charsOf ps)
      · rw [if_neg (by simpa using hsame), charsOf_cons, charsOf_cons]
        refine (replaceAll_label h (hlabels other List.mem_cons_self) (Ne.symm hsame)).trans ?_
        simp [PathPart.chars, charsOf]

/-! ### Chains of calls -/

/-- The text after a chain of calls, each with what is between the braces of a label and the text for it. -/
def replaceEach (calls : List (List Char × List Char)) (cs : List Char) : List Char :=
  calls.foldl (fun cs call => replaceAll (inBraces call.1) call.2 0 cs) cs

def fillEach (calls : List (List Char × List Char)) (ps : List PathPart) : List PathPart :=
  calls.foldl (fun ps call => fillLabel call.1 call.2 ps) ps

theorem mem_fillLabel {other text : List Char} :
    .label other ∈ fillLabel inner text ps ↔ .label other ∈ ps ∧ other ≠ inner := by
  simp only [fillLabel, List.mem_flatMap]
  constructor
  · rintro ⟨p, hp, hmem⟩
    split at hmem
    · simp at hmem
    · rename_i hne
      cases List.mem_singleton.1 hmem
      exact ⟨hp, fun heq => hne (by rw [heq])⟩
  · rintro ⟨hmem, hne⟩
    exact ⟨.label other, hmem, by simp [hne]⟩

theorem mem_fillEach {other : List Char} {calls : List (List Char × List Char)} :
    .label other ∈ fillEach calls ps ↔ .label other ∈ ps ∧ ∀ call ∈ calls, other ≠ call.1 := by
  induction calls generalizing ps with
  | nil => simp [fillEach]
  | cons call calls ih =>
    rw [fillEach, List.foldl_cons]
    exact ih.trans (by rw [mem_fillLabel, List.forall_mem_cons, and_assoc])

theorem hidden_fillLabel {cs text : List Char} (h : cs.map .char <:+: ps) :
    cs.map .char <:+: fillLabel inner text ps := by
  obtain ⟨before, after, rfl⟩ := h
  have hsame : fillLabel inner text (cs.map .char) = cs.map .char := by
    induction cs with
    | nil => rfl
    | cons c cs ih => rw [List.map_cons, fillLabel_cons, if_neg (by simp), ih]; rfl
  rw [fillLabel, List.flatMap_append, List.flatMap_append, ← fillLabel, ← fillLabel, ← fillLabel, hsame]
  exact ⟨_, _, rfl⟩

theorem hidden_fillEach {cs : List Char} (calls : List (List Char × List Char)) (h : cs.map .char <:+: ps) :
    cs.map .char <:+: fillEach calls ps := by
  induction calls generalizing ps with
  | nil => exact h
  | cons call calls ih => exact ih (hidden_fillLabel h)

/-- **A chain of calls replaces each of its labels**, unless one of them is spelled otherwise in the end. -/
theorem replaceEach_parts {calls : List (List Char × List Char)} (hcalls : ∀ call ∈ calls, BraceFree call.1)
    (hlabels : ∀ other, .label other ∈ ps → BraceFree other)
    (hhidden : ∀ call ∈ calls, ¬ (inBraces call.1).map .char <:+: fillEach calls ps) :
    replaceEach calls (charsOf ps) = charsOf (fillEach calls ps) := by
  induction calls generalizing ps with
  | nil => rfl
  | cons call calls ih =>
    -- what hides a label now still does in the end
    have hfirst : ¬ (inBraces call.1).map .char <:+: ps := fun h =>
      hhidden call List.mem_cons_self (hidden_fillEach (call :: calls) h)
    rw [replaceEach, List.foldl_cons, replaceAll_parts (hcalls call List.mem_cons_self) hlabels hfirst]
    exact ih (fun c hc => hcalls c (List.mem_cons_of_mem _ hc))
      (fun other hother => hlabels other (mem_fillLabel.1 hother).1)
      fun c hc => hhidden c (List.mem_cons_of_mem _ hc)

theorem label_mem_replaceEach {calls : List (List Char × List Char)} (hcalls : ∀ call ∈ calls, BraceFree call.1)
    {path : List Char} (hmem : .label inner ∈ pathParts path) (hother : ∀ call ∈ calls, inner ≠ call.1) :
    .label inner ∈ pathParts (replaceEach calls path) := by
  have hfree := braceFree_of_mem hmem
  induction calls generalizing path with
  | nil => exact hmem
  | cons call calls ih =>
    -- what is left is read anew after each call, and other labels may be found then, but this one is still there
    refine ih (fun c hc => hcalls c (List.mem_cons_of_mem _ hc)) ?_ fun c hc => hother c (List.mem_cons_of_mem _ hc)
    have hcall := hcalls call List.mem_cons_self
    have hreplaced :
        replaceAll (inBraces call.1) call.2 0 path = charsOf (fillLabel call.1 call.2 (pathParts path)) := by
      rw [← replaceAll_parts hcall (fun other => braceFree_of_mem) (not_hidden hcall path), charsOf_pathParts]
    apply label_mem_of_part hfree
    dsimp only
    rw [hreplaced]
    exact part_of_label_mem (mem_fillLabel.2 ⟨hmem, hother call List.mem_cons_self⟩)

/-! ### Names and forms of labels -/

/-- What stands between the braces of the labels of a path, in order. -/
def writtenLabels (path : List Char) : List (List Char) := (pathParts path).filterMap PathPart.inner?

/-- The name of a label: what stands between its braces, without plus signs at the end. -/
def labelName (inner : List Char) : List Char := dropEndWhile (· == '+') inner

theorem mem_writtenLabels {path : List Char} : inner ∈ writtenLabels path ↔ .label inner ∈ pathParts path := by
  rw [writtenLabels, List.mem_filterMap]
  constructor
  · rintro ⟨p, hp, hinner⟩
    cases p with
    | char c => cases hinner
    | label other =>
      cases hinner
      exact hp
  · exact fun h => ⟨.label inner, h, rfl⟩

/-- The beginning of a piece up to its first closing brace. -/
def closedBy (piece : List Char) : Option (List Char) := (cut? '\x7d' piece).map Prod.fst

theorem writtenLabels_pieces (path : List Char) : ∃ head tail, pieces '\x7b' path = head :: tail ∧
    writtenLabels path = tail.filterMap closedBy ∧ (takeInner (pathParts path)).map Prod.fst = closedBy head := by
  -- the third fact says whether an opening brace in front would begin a label
  induction path with
  | nil => exact ⟨[], [], rfl, rfl, rfl⟩
  | cons c rest ih =>
    obtain ⟨head, tail, hpieces, hlabels, hhead⟩ := ih
    unfold writtenLabels at hlabels ⊢
    by_cases hc : c = '\x7b'
    · subst hc
      refine ⟨[], head :: tail, by rw [pieces, if_pos rfl, hpieces], ?_⟩
      obtain ⟨inner, after, -, hfree, hrest, heq⟩ | ⟨hnone, heq⟩ := pathParts_cons '\x7b' rest
      · rw [hrest, takeInner_chars hfree] at hhead
        have hclosed : closedBy head = some inner := hhead.symm
        have hafter : (pathParts rest).filterMap PathPart.inner? = after.filterMap PathPart.inner? := by
          rw [hrest, List.filterMap_append, List.filterMap_map]
          simp [PathPart.inner?, Function.comp_def, List.filterMap_cons]
        have hlabel : (PathPart.label inner).inner? = some inner := rfl
        rw [heq]
        refine ⟨?_, rfl⟩
        rw [List.filterMap_cons_some hlabel, List.filterMap_cons_some hclosed, ← hlabels, hafter]
      · have hclosed : closedBy head = none := by
          rw [← hhead, hnone rfl]
          rfl
        rw [heq]
        refine ⟨?_, rfl⟩
        rw [List.filterMap_cons_none rfl, List.filterMap_cons_none hclosed, hlabels]
    · refine ⟨c :: head, tail, by rw [pieces, if_neg hc, hpieces], ?_, ?_⟩
      · rw [pathParts_other hc, List.filterMap_cons_none rfl, hlabels]
      · rw [pathParts_other hc, takeInner, closedBy, cut?]
        by_cases hclose : c = '\x7d'
        · rw [if_pos hclose, if_pos hclose]
          rfl
        · rw [if_neg hclose, if_neg hclose, if_neg hc]
          rw [closedBy] at hhead
          simp only [Option.map_map, Function.comp_def]
          have hcons := congrArg (Option.map (List.cons c)) hhead
          simpa only [Option.map_map, Function.comp_def] using hcons

/-- **The names that the chain goes by are those of the labels.** -/
theorem pathLabels_eq (path : List Char) : pathLabels path = (writtenLabels path).map labelName := by
  obtain ⟨head, tail, hpieces, hlabels, -⟩ := writtenLabels_pieces path
  rw [pathLabels, hpieces, hlabels, List.drop_one, List.tail_cons, List.map_filterMap]
  congr 1
  funext piece
  rw [closedBy, Option.map_map]
  rfl

theorem labelName_append (inner : List Char) : labelName (inner ++ ['+']) = labelName inner := by
  simp [labelName, dropEndWhile]

theorem labelName_labelName (inner : List Char) : labelName (labelName inner) = labelName inner := by
  rw [labelName, labelName, dropEndWhile, dropEndWhile, List.reverse_reverse, List.dropWhile_idempotent]

/-- Each label stands in one form: as `{name+}`, or as `{name}` if the other form is not in the path. -/
def OneForm (path : List Char) : Prop :=
  ∀ inner ∈ writtenLabels path, inner = labelName inner ++ ['+'] ∨
    inner = labelName inner ∧ labelName inner ++ ['+'] ∉ writtenLabels path

instance (path : List Char) : Decidable (OneForm path) :=
  inferInstanceAs (Decidable (∀ inner ∈ writtenLabels path, _))

theorem braceFree_labelName (h : BraceFree inner) : BraceFree (labelName inner) := by
  have hsub : labelName inner ⊆ inner := by
    intro c hc
    rw [labelName, dropEndWhile, List.mem_reverse] at hc
    exact List.mem_reverse.1 ((List.dropWhile_suffix _).subset hc)
  exact ⟨fun hc => h.1 (hsub hc), fun hc => h.2 (hsub hc)⟩

theorem braceFree_append_plus (h : BraceFree inner) : BraceFree (inner ++ ['+']) := by
  simpa [BraceFree] using h

/-- What stands between the braces of the token for a name. -/
def tokenInner (path name : List Char) : List Char :=
  if name ++ ['+'] ∈ writtenLabels path then name ++ ['+'] else name

theorem labelToken_eq {path name : List Char} (h : BraceFree name) :
    (labelToken path name).toList = inBraces (tokenInner path name) := by
  have hgreedy : hasPart (inBraces (name ++ ['+'])) path = true ↔ name ++ ['+'] ∈ writtenLabels path := by
    rw [hasPart_iff, mem_writtenLabels]
    refine ⟨label_mem_of_part (braceFree_append_plus h), fun hmem => ?_⟩
    rw [← charsOf_pathParts path]
    exact part_of_label_mem hmem
  rw [labelToken, String.toList_ofList, tokenInner]
  by_cases hmem : name ++ ['+'] ∈ writtenLabels path
  · rw [if_pos (hgreedy.2 hmem), if_pos hmem]
  · rw [if_neg (fun htrue => hmem (hgreedy.1 htrue)), if_neg hmem]

theorem OneForm.tokenInner {path inner : List Char} (h : OneForm path) (hinner : inner ∈ writtenLabels path) :
    tokenInner path (labelName inner) = inner := by
  unfold Package.tokenInner
  rcases h inner hinner with hgreedy | ⟨hplain, hnot⟩
  · rw [← hgreedy, if_pos hinner]
  · rw [if_neg hnot, ← hplain]

/-- If each label is the token for a name of a label, each stands in one form. -/
theorem oneForm_of_tokens {path : List Char}
    (h : ∀ inner ∈ writtenLabels path, ∃ other ∈ writtenLabels path, inner = tokenInner path (labelName other)) :
    OneForm path := by
  intro inner hinner
  obtain ⟨other, -, heq⟩ := h inner hinner
  unfold tokenInner at heq
  split at heq
  · refine .inl ?_
    rw [heq, labelName_append, labelName_labelName]
  · rename_i hnot
    refine .inr ?_
    rw [heq, labelName_labelName]
    exact ⟨rfl, hnot⟩

/-! ### The request path -/

namespace PathPart

/-- A label filled in. -/
def fill (value : List Char → List Char) : PathPart → List Char
  | char c => [c]
  | label inner => value (labelName inner)

end PathPart

/-- **The path with all labels filled in**, each by the text for its name. -/
def fillPath (value : List Char → List Char) (path : List Char) : List Char :=
  (pathParts path).flatMap (PathPart.fill value)

/-- A label of the path stands in the result. -/
def LabelLeft (path result : List Char) : Prop := ∃ inner ∈ writtenLabels path, hasPart (inBraces inner) result = true

variable {value : List Char → List Char} {path : List Char}

/-- The calls for the labels of a path. -/
def labelCalls (value : List Char → List Char) (path : List Char) : List (List Char × List Char) :=
  (writtenLabels path).map fun inner => (tokenInner path (labelName inner), value (labelName inner))

theorem fill_fillLabel (inner : List Char) (ps : List PathPart) :
    (fillLabel inner (value (labelName inner)) ps).flatMap (PathPart.fill value) =
      ps.flatMap (PathPart.fill value) := by
  have hchars : ∀ cs : List Char, (cs.map PathPart.char).flatMap (PathPart.fill value) = cs := by
    intro cs
    rw [List.flatMap_map]
    exact List.flatMap_singleton' cs
  induction ps with
  | nil => rfl
  | cons p ps ih =>
    rw [fillLabel_cons, List.flatMap_append, ih, List.flatMap_cons]
    congr 1
    split
    · rename_i hp
      rw [hp, hchars]
      rfl
    · exact List.flatMap_singleton ..

theorem fill_fillEach (labels : List (List Char)) (ps : List PathPart) :
    (fillEach (labels.map fun inner => (inner, value (labelName inner))) ps).flatMap (PathPart.fill value) =
      ps.flatMap (PathPart.fill value) := by
  induction labels generalizing ps with
  | nil => rfl
  | cons inner labels ih => exact (ih _).trans (fill_fillLabel inner ps)

/-- **The chain fills in the labels** that stand in one form, if none is left when all are filled in. -/
theorem replaceEach_labelCalls (hform : OneForm path) (hleft : ¬ LabelLeft path (fillPath value path)) :
    replaceEach (labelCalls value path) path = fillPath value path := by
  have hcalls : labelCalls value path = (writtenLabels path).map fun inner => (inner, value (labelName inner)) :=
    List.map_congr_left fun inner hinner => by rw [hform.tokenInner hinner]
  set filled := fillEach ((writtenLabels path).map fun inner => (inner, value (labelName inner))) (pathParts path)
    with hfilled
  -- no label is left among the parts, so that they are characters
  have hnone : ∀ inner, .label inner ∉ filled := by
    intro inner hmem
    obtain ⟨hpath, hother⟩ := mem_fillEach.1 hmem
    exact hother (inner, value (labelName inner)) (List.mem_map.2 ⟨inner, mem_writtenLabels.2 hpath, rfl⟩) rfl
  have hchars : charsOf filled = fillPath value path := by
    rw [fillPath, ← fill_fillEach (writtenLabels path), ← hfilled]
    refine List.flatMap_congr fun p hp => ?_
    cases p with
    | char c => rfl
    | label inner => exact absurd hp (hnone inner)
  rw [hcalls, ← hchars]
  calc replaceEach _ path = replaceEach _ (charsOf (pathParts path)) := by rw [charsOf_pathParts]
    _ = charsOf filled := replaceEach_parts ?_ (fun other => braceFree_of_mem) ?_
  · intro call hcall
    obtain ⟨inner, hinner, rfl⟩ := List.mem_map.1 hcall
    exact braceFree_of_mem (mem_writtenLabels.1 hinner)
  · intro call hcall hhidden
    obtain ⟨inner, hinner, rfl⟩ := List.mem_map.1 hcall
    refine hleft ⟨inner, hinner, hasPart_iff.2 ?_⟩
    obtain ⟨before, after, heq⟩ := hhidden
    rw [← hchars, hfilled, ← heq]
    exact ⟨charsOf before, charsOf after, by simp⟩

theorem braceFree_tokenInner {name : List Char} (h : BraceFree name) : BraceFree (tokenInner path name) := by
  unfold tokenInner
  split
  · exact braceFree_append_plus h
  · exact h

theorem oneForm_of_not_left (h : ¬ LabelLeft path (replaceEach (labelCalls value path) path)) : OneForm path := by
  refine oneForm_of_tokens fun inner hinner => ?_
  by_contra hno
  push Not at hno
  have hmem : .label inner ∈ pathParts (replaceEach (labelCalls value path) path) := by
    refine label_mem_replaceEach (fun call hcall => ?_) (mem_writtenLabels.1 hinner) fun call hcall => ?_
    · obtain ⟨other, hother, rfl⟩ := List.mem_map.1 hcall
      exact braceFree_tokenInner (braceFree_labelName (braceFree_of_mem (mem_writtenLabels.1 hother)))
    · obtain ⟨other, hother, rfl⟩ := List.mem_map.1 hcall
      exact hno other hother
  refine h ⟨inner, hinner, hasPart_iff.2 ?_⟩
  rw [← charsOf_pathParts (replaceEach (labelCalls value path) path)]
  exact part_of_label_mem hmem

/-- **The chain fills in all labels and leaves none exactly if each stands in one form**, and if none is spelled by the
path that is filled in. -/
theorem replaceEach_iff : replaceEach (labelCalls value path) path = fillPath value path ∧
      ¬ LabelLeft path (replaceEach (labelCalls value path) path) ↔
    OneForm path ∧ ¬ LabelLeft path (fillPath value path) := by
  constructor
  · rintro ⟨heq, hleft⟩
    exact ⟨oneForm_of_not_left hleft, heq ▸ hleft⟩
  · rintro ⟨hform, hleft⟩
    have heq := replaceEach_labelCalls hform hleft
    exact ⟨heq, heq ▸ hleft⟩

/-- Texts without braces spell no label, if each opening brace of the path begins one. -/
theorem not_labelLeft (hvalue : ∀ name, BraceFree (value name)) (hstray : .char '\x7b' ∉ pathParts path) :
    ¬ LabelLeft path (fillPath value path) := by
  rintro ⟨inner, -, hpart⟩
  have hopen : '\x7b' ∈ fillPath value path := (hasPart_iff.1 hpart).subset (by simp [inBraces])
  obtain ⟨p, hp, hmem⟩ := List.mem_flatMap.1 hopen
  cases p with
  | char c =>
    cases List.mem_singleton.1 hmem
    exact hstray hp
  | label inner => exact (hvalue _).1 hmem

end ClientGen.Package
