import ClientGen.Proofs.IdText
import ClientGen.Proofs.LiteralText
import ClientGen.Proofs.Outcome

/-!
# The grammar of templates

A template is a sequence of texts without dollar signs and of placeholders, each with a dollar sign in front. Reading
it is a scan from left to right that takes one of them at a time. What stands between the format of a named
placeholder and its closing brace is not looked at, so the scan accepts more than the documented placeholders.

* `placeholder_eq_ok_iff`: a placeholder is read, and what comes after it is left.
* `tokens_sound`, `tokens_complete`: the scan gives the tokens that spell the text, and no others.
* `parse_grammar`: which texts are templates.
-/

namespace ClientGen.Template

/-- The character that stands for a format. -/
def formatChar : Format → Char
  | .literal => 'L'
  | .string => 'S'
  | .type => 'T'
  | .code => 'C'

/-- What stands after a dollar sign. `Surplus` says what may follow the format of a named placeholder, up to the closing
brace. -/
inductive Placeholder (Surplus : List Char → Prop) : Token → List Char → Prop
  | dollar : Placeholder Surplus .dollar ['$']
  | next (f : Format) : Placeholder Surplus (.argument .next f) [formatChar f]
  | position (f : Format) {digits : List Char} (hdigits : ∀ c ∈ digits, c.isDigit = true)
      (hpositive : 1 ≤ decimalValue digits) (hmax : decimalValue digits ≤ maxPosition) :
      Placeholder Surplus (.argument (.position (decimalValue digits)) f) (digits ++ [formatChar f])
  | named (f : Format) {name surplus : List Char} (hname : name ≠ []) (hbrace : '\x7d' ∉ name) (hcolon : ':' ∉ name)
      (hformat : f ≠ .code) (hsurplus : Surplus surplus) :
      Placeholder Surplus (.named (String.ofList name) f)
        ('\x7b' :: (name ++ ':' :: formatChar f :: surplus ++ ['\x7d']))
  | block : Placeholder Surplus (.argument .next .code) ['\x7b', 'C', '|', '\x7d']

/-- **The tokens are written with the text**: one piece after another, where a text goes on to the next dollar sign. -/
inductive Spells (Surplus : List Char → Prop) : List Token → List Char → Prop
  | nil : Spells Surplus [] []
  | text {c : Char} {text rest : List Char} {ts : List Token} (htext : '$' ∉ c :: text)
      (hend : rest.head?.all (· == '$') = true) (hrest : Spells Surplus ts rest) :
      Spells Surplus (.text (String.ofList (c :: text)) :: ts) (c :: text ++ rest)
  | placeholder {t : Token} {piece rest : List Char} {ts : List Token} (ht : Placeholder Surplus t piece)
      (hrest : Spells Surplus ts rest) : Spells Surplus (t :: ts) ('$' :: piece ++ rest)

variable {template : String} {Surplus : List Char → Prop} {cs rest : List Char} {t : Token} {ts : List Token}

/-! ### Placeholders -/

theorem format_eq_ok_iff {c : Option Char} {f : Format} : format template c = .ok f ↔ c = some (formatChar f) := by
  constructor
  · intro h
    unfold format at h
    split at h <;> cases h <;> rfl
  · rintro rfl
    cases f <;> rfl

theorem formatChar_isDigit (f : Format) : (formatChar f).isDigit = false := by
  cases f <;> rfl

/-- **A placeholder in braces**: the rest of the text between them is the surplus. -/
theorem braced_eq_ok_iff {inner : List Char} (hinner : '\x7d' ∉ inner) :
    braced template inner = .ok t ↔ Placeholder ('\x7d' ∉ ·) t ('\x7b' :: (inner ++ ['\x7d'])) := by
  unfold braced
  constructor
  · intro h
    split at h
    · next heq =>
      cases h
      rw [heq]
      exact .block
    · split at h
      · cases h
      · next name rest hcut =>
        obtain ⟨rfl, hcolon⟩ := Text.cut?_eq_some_iff.1 hcut
        obtain ⟨f, hf, h⟩ := bind_ok_iff.1 h
        obtain ⟨surplus, rfl⟩ := List.head?_eq_some_iff.1 (format_eq_ok_iff.1 hf)
        rw [List.mem_append, not_or] at hinner
        split at h
        · cases h
        · next hvalid =>
          cases h
          rw [Bool.or_eq_true, List.isEmpty_iff, decide_eq_true_iff, not_or] at hvalid
          refine .named f hvalid.1 hinner.1 hcolon hvalid.2 fun hmem => hinner.2 ?_
          exact List.mem_cons_of_mem _ (List.mem_cons_of_mem _ hmem)
  · intro h
    generalize hpiece : '\x7b' :: (inner ++ ['\x7d']) = piece at h
    cases h with
    | dollar => cases hpiece
    | next f => cases f <;> cases hpiece
    | @position f digits hdigits hpositive hmax =>
      -- a position has a digit at its start, not a brace
      cases digits with
      | nil => cases hpositive
      | cons d digits =>
        have hd := hdigits d List.mem_cons_self
        rw [← (List.cons.inj hpiece).1] at hd
        cases hd
    | @named f name surplus hname hbrace hcolon hformat hsurplus =>
      have heq : inner = name ++ ':' :: formatChar f :: surplus := List.append_cancel_right (List.cons.inj hpiece).2
      have hcut : Text.cut? ':' inner = some (name, formatChar f :: surplus) :=
        Text.cut?_eq_some_iff.2 ⟨heq, hcolon⟩
      have hne : inner ≠ ['C', '|'] := by
        rintro rfl
        cases hcut
      have hvalid : (name.isEmpty || decide (f = .code)) = false := by
        rw [Bool.or_eq_false_iff, List.isEmpty_eq_false_iff, decide_eq_false_iff_not]
        exact ⟨hname, hformat⟩
      rw [if_neg hne, hcut]
      dsimp only
      rw [List.head?_cons, format_eq_ok_iff.2 rfl]
      show (if (name.isEmpty || decide (f = .code)) = true then _ else _) = _
      rw [hvalid]
      rfl
    | block =>
      have heq : inner = ['C', '|'] := List.append_cancel_right (List.cons.inj hpiece).2
      rw [if_pos heq]

theorem placeholder_plain {c : Char} (hdollar : c ≠ '$') (hbrace : c ≠ '\x7b') (cs : List Char) :
    placeholder template (c :: cs) =
      if c.isDigit then
        let digits := (c :: cs).takeWhile Char.isDigit
        let after := (c :: cs).dropWhile Char.isDigit
        let n := decimalValue digits
        if maxPosition < n then .error (.badPosition template)
        else if n = 0 then .error (.zeroPosition template)
        else (format template after.head?).map fun f => (.argument (.position n) f, after.tail)
      else (format template (some c)).map fun f => (.argument .next f, cs) := by
  rw [placeholder.eq_4]
  · intro h
    exact hdollar h
  · intro h
    exact hbrace h

/-- **A placeholder is read from the start of a text**, and what comes after it is left. -/
theorem placeholder_eq_ok_iff :
    placeholder template cs = .ok (t, rest) ↔ ∃ piece, Placeholder ('\x7d' ∉ ·) t piece ∧ cs = piece ++ rest := by
  constructor
  · intro h
    unfold placeholder at h
    split at h
    · cases h
    · cases h
      exact ⟨['$'], .dollar, rfl⟩
    · split at h
      · cases h
      · next inner after hcut =>
        obtain ⟨rfl, hinner⟩ := Text.cut?_eq_some_iff.1 hcut
        obtain ⟨token, htoken, heq⟩ := map_ok_iff.1 h
        cases heq
        exact ⟨_, (braced_eq_ok_iff hinner).1 htoken, by simp⟩
    · next c cs hdollar hbrace =>
      split at h
      · next hdigit =>
        dsimp only at h
        split at h
        · cases h
        split at h
        · cases h
        next hmax hzero =>
        obtain ⟨f, hf, heq⟩ := map_ok_iff.1 h
        cases heq
        refine ⟨_, .position f (List.all_eq_true.1 List.all_takeWhile) (Nat.one_le_iff_ne_zero.2 hzero)
          (Nat.le_of_not_lt hmax), ?_⟩
        obtain ⟨tail, htail⟩ := List.head?_eq_some_iff.1 (format_eq_ok_iff.1 hf)
        calc c :: cs = (c :: cs).takeWhile Char.isDigit ++ (c :: cs).dropWhile Char.isDigit :=
              List.takeWhile_append_dropWhile.symm
          _ = _ := by rw [htail, List.append_assoc]; rfl
      · obtain ⟨f, hf, heq⟩ := map_ok_iff.1 h
        cases heq
        cases format_eq_ok_iff.1 hf
        exact ⟨_, .next f, rfl⟩
  · rintro ⟨piece, hpiece, rfl⟩
    cases hpiece with
    | dollar => rfl
    | next f => cases f <;> rfl
    | @position f digits hdigits hpositive hmax =>
      cases digits with
      | nil => cases hpositive
      | cons d digits =>
        have hd := hdigits d List.mem_cons_self
        have hdollar : d ≠ '$' := by
          rintro rfl
          cases hd
        have hbrace : d ≠ '\x7b' := by
          rintro rfl
          cases hd
        -- a format is no digit, so the position is read up to it
        have hspan : (d :: digits ++ [formatChar f] ++ rest) = d :: digits ++ formatChar f :: rest := by simp
        have hstop : ¬ (formatChar f).isDigit = true := by simp [formatChar_isDigit]
        rw [hspan, List.cons_append, placeholder_plain hdollar hbrace, if_pos hd, ← List.cons_append,
          List.takeWhile_append_of_pos hdigits, List.dropWhile_append_of_pos hdigits,
          List.takeWhile_cons_of_neg hstop, List.dropWhile_cons_of_neg hstop, List.append_nil]
        dsimp only
        rw [if_neg (Nat.not_lt.2 hmax), if_neg (Nat.one_le_iff_ne_zero.1 hpositive), List.head?_cons,
          format_eq_ok_iff.2 rfl]
        rfl
    | @named f name surplus hname hbrace hcolon hformat hsurplus =>
      have hinner : '\x7d' ∉ name ++ ':' :: formatChar f :: surplus := by
        have hf : '\x7d' ≠ formatChar f := by cases f <;> decide
        simp [hbrace, hf, hsurplus]
      have hcut : Text.cut? '\x7d' (name ++ ':' :: formatChar f :: surplus ++ '\x7d' :: rest) =
          some (name ++ ':' :: formatChar f :: surplus, rest) := Text.cut?_eq_some_iff.2 ⟨rfl, hinner⟩
      have hbraced : braced template (name ++ ':' :: formatChar f :: surplus) = .ok (.named (String.ofList name) f) :=
        (braced_eq_ok_iff hinner).2 (.named f hname hbrace hcolon hformat hsurplus)
      rw [List.cons_append, List.append_assoc, List.singleton_append]
      rw [placeholder, hcut]
      dsimp only
      rw [hbraced]
      rfl
    | block => rfl

/-! ### Sequences -/

theorem Placeholder.mono {Surplus' : List Char → Prop} (himp : ∀ s, Surplus s → Surplus' s) {piece : List Char}
    (h : Placeholder Surplus t piece) : Placeholder Surplus' t piece := by
  cases h with
  | dollar => exact .dollar
  | next f => exact .next f
  | position f hdigits hpositive hmax => exact .position f hdigits hpositive hmax
  | named f hname hbrace hcolon hformat hsurplus => exact .named f hname hbrace hcolon hformat (himp _ hsurplus)
  | block => exact .block

theorem Spells.mono {Surplus' : List Char → Prop} (himp : ∀ s, Surplus s → Surplus' s) (h : Spells Surplus ts cs) :
    Spells Surplus' ts cs := by
  induction h with
  | nil => exact .nil
  | text htext hend _ ih => exact .text htext hend ih
  | placeholder ht _ ih => exact .placeholder (ht.mono himp) ih

theorem tokens_text {c : Char} (hc : c ≠ '$') (fuel : Nat) (cs : List Char) :
    tokens template (fuel + 1) (c :: cs) = do
      let more ← tokens template fuel ((c :: cs).dropWhile (· != '$'))
      return .text (String.ofList ((c :: cs).takeWhile (· != '$'))) :: more :=
  tokens.eq_4 _ _ _ (List.cons_ne_nil c cs) fun _ heq => hc (List.cons.inj heq).1

theorem tokens_append {c : Char} {text rest : List Char} (htext : '$' ∉ c :: text)
    (hend : rest.head?.all (· == '$') = true) (fuel : Nat) : tokens template (fuel + 1) (c :: text ++ rest) =
      tokens template fuel rest >>= fun more => pure (.text (String.ofList (c :: text)) :: more) := by
  have hfirst : c ≠ '$' := fun heq => htext (heq ▸ List.mem_cons_self)
  have hpos : ∀ d ∈ c :: text, (d != '$') = true := fun d hd => bne_iff_ne.2 fun heq => htext (heq ▸ hd)
  -- the rest is empty or starts with a dollar sign, so the text ends there
  have hstop : rest.takeWhile (· != '$') = [] ∧ rest.dropWhile (· != '$') = rest := by
    cases rest with
    | nil => exact ⟨rfl, rfl⟩
    | cons d rest =>
      have hd : ¬ (d != '$') = true := by simpa using hend
      exact ⟨List.takeWhile_cons_of_neg hd, List.dropWhile_cons_of_neg hd⟩
  rw [List.cons_append, tokens_text hfirst, ← List.cons_append, List.takeWhile_append_of_pos hpos,
    List.dropWhile_append_of_pos hpos, hstop.1, hstop.2, List.append_nil]

/-- What is left after the first text is nothing, or starts with a dollar sign. -/
theorem head?_dropWhile (cs : List Char) : (cs.dropWhile (· != '$')).head?.all (· == '$') = true := by
  induction cs with
  | nil => rfl
  | cons c cs ih =>
    rw [List.dropWhile_cons]
    split
    · exact ih
    · next h => simpa using h

/-- **The tokens that the scan gives spell the text.** -/
theorem tokens_sound : ∀ {fuel : Nat} {cs : List Char} {ts : List Token}, cs.length < fuel →
    tokens template fuel cs = .ok ts → Spells ('\x7d' ∉ ·) ts cs := by
  intro fuel
  induction fuel with
  | zero => exact fun hfuel _ => absurd hfuel (Nat.not_lt_zero _)
  | succ fuel ih =>
    intro cs ts hfuel h
    cases cs with
    | nil =>
      cases h
      exact .nil
    | cons c cs =>
      by_cases hc : c = '$'
      · subst hc
        obtain ⟨⟨t, after⟩, hread, h⟩ := bind_ok_iff.1 h
        obtain ⟨more, hmore, h⟩ := bind_ok_iff.1 h
        cases h
        obtain ⟨piece, hpiece, rfl⟩ := placeholder_eq_ok_iff.1 hread
        -- at least the dollar sign is taken, so the fuel lasts
        have hafter : after.length < fuel := by
          simp only [List.length_cons, List.length_append] at hfuel
          omega
        exact .placeholder hpiece (ih hafter hmore)
      · rw [tokens_text hc] at h
        obtain ⟨more, hmore, h⟩ := bind_ok_iff.1 h
        cases h
        have hpos : (c != '$') = true := bne_iff_ne.2 hc
        rw [List.dropWhile_cons_of_pos (p := (· != '$')) hpos] at hmore
        rw [List.takeWhile_cons_of_pos (p := (· != '$')) hpos]
        have hlength : (cs.dropWhile (· != '$')).length < fuel :=
          Nat.lt_of_le_of_lt (List.dropWhile_sublist _).length_le (Nat.lt_of_succ_lt_succ hfuel)
        have htext : '$' ∉ c :: cs.takeWhile (· != '$') := by
          rw [List.mem_cons, not_or]
          refine ⟨Ne.symm hc, fun hmem => ?_⟩
          simpa using List.all_eq_true.1 List.all_takeWhile _ hmem
        have hspells := Spells.text htext (head?_dropWhile cs) (ih hlength hmore)
        rwa [List.cons_append, List.takeWhile_append_dropWhile] at hspells

/-- **Tokens that spell a text are what the scan gives.** -/
theorem tokens_complete (h : Spells ('\x7d' ∉ ·) ts cs) : ∀ {fuel : Nat}, cs.length < fuel →
    tokens template fuel cs = .ok ts := by
  induction h with
  | nil =>
    intro fuel hfuel
    obtain ⟨fuel, rfl⟩ := Nat.exists_eq_succ_of_ne_zero (Nat.ne_zero_of_lt hfuel)
    rfl
  | @text c text rest ts htext hend _ ih =>
    intro fuel hfuel
    obtain ⟨fuel, rfl⟩ := Nat.exists_eq_succ_of_ne_zero (Nat.ne_zero_of_lt hfuel)
    have hlength : rest.length < fuel := by
      simp only [List.length_append, List.length_cons] at hfuel
      omega
    rw [tokens_append htext hend, ih hlength]
    rfl
  | @placeholder t piece rest ts ht _ ih =>
    intro fuel hfuel
    obtain ⟨fuel, rfl⟩ := Nat.exists_eq_succ_of_ne_zero (Nat.ne_zero_of_lt hfuel)
    have hlength : rest.length < fuel := by
      simp only [List.length_append, List.length_cons] at hfuel
      omega
    show (placeholder template (piece ++ rest) >>= fun x => tokens template fuel x.2 >>= fun more =>
      pure (x.1 :: more)) = _
    rw [placeholder_eq_ok_iff.2 ⟨piece, ht, rfl⟩]
    show (tokens template fuel rest >>= fun more => pure (t :: more)) = _
    rw [ih hlength]
    rfl

theorem parse_eq_ok_iff : parse template = .ok ts ↔ Spells ('\x7d' ∉ ·) ts template.toList :=
  ⟨tokens_sound (Nat.lt_succ_self _), fun h => tokens_complete h (Nat.lt_succ_self _)⟩

/-! ### Texts as templates -/

/-- The text with every dollar sign doubled. -/
def escape (s : String) : String := Text.respell (fun c => if c = '$' then ['$', '$'] else [c]) s

/-- A character that is no dollar sign goes to the text that a template starts with, if it starts with one. -/
theorem Spells.cons_char {c : Char} (hc : c ≠ '$') {s : String} (h : Spells Surplus ts cs)
    (hs : literalTokens? [] 0 ts = some s) :
    ∃ ts', Spells Surplus ts' (c :: cs) ∧ literalTokens? [] 0 ts' = some (String.ofList [c] ++ s) := by
  have hone : '$' ∉ [c] := by simpa using Ne.symm hc
  cases h with
  | nil =>
    cases hs
    exact ⟨[.text (String.ofList [c])], .text hone rfl .nil, rfl⟩
  | @text d text rest ts htext hend hrest =>
    obtain ⟨more, hmore, rfl⟩ := Option.map_eq_some_iff.1 hs
    have hlonger : '$' ∉ c :: d :: text := List.not_mem_cons_of_ne_of_not_mem (Ne.symm hc) htext
    refine ⟨.text (String.ofList (c :: d :: text)) :: ts, .text hlonger hend hrest, ?_⟩
    show (literalTokens? [] 0 ts).map (String.ofList (c :: d :: text) ++ ·) = _
    rw [hmore, ← String.append_assoc, ← String.ofList_append]
    rfl
  | @placeholder t piece rest ts ht hrest =>
    refine ⟨.text (String.ofList [c]) :: t :: ts, .text hone rfl (.placeholder ht hrest), ?_⟩
    show (literalTokens? [] 0 (t :: ts)).map (String.ofList [c] ++ ·) = _
    rw [hs]
    rfl

theorem escape_spells (Surplus : List Char → Prop) (cs : List Char) :
    ∃ ts, Spells Surplus ts (cs.flatMap fun c => if c = '$' then ['$', '$'] else [c]) ∧
      literalTokens? [] 0 ts = some (String.ofList cs) := by
  induction cs with
  | nil => exact ⟨[], .nil, rfl⟩
  | cons c cs ih =>
    obtain ⟨ts, hts, hs⟩ := ih
    by_cases hc : c = '$'
    · subst hc
      refine ⟨.dollar :: ts, .placeholder .dollar hts, ?_⟩
      show (literalTokens? [] 0 ts).map ("$" ++ ·) = _
      rw [hs]
      exact congrArg some String.ofList_append.symm
    · obtain ⟨ts', hts', hs'⟩ := hts.cons_char hc hs
      rw [List.flatMap_cons, if_neg hc]
      exact ⟨ts', hts', hs'.trans (congrArg some String.ofList_append.symm)⟩

theorem arity_of_literal : ∀ {ts : List Token} {next : Nat} {s : String}, literalTokens? [] next ts = some s →
    relativeCount ts = 0 ∧ positions ts = [] := by
  intro ts
  induction ts with
  | nil => exact fun _ => ⟨rfl, rfl⟩
  | cons t ts ih =>
    intro next s h
    cases t with
    | text _ | dollar =>
      obtain ⟨more, hmore, -⟩ := Option.map_eq_some_iff.1 h
      exact ih hmore
    | named name f => cases h
    | argument index f => cases index <;> cases h

/-- **A text with its dollar signs doubled, as a template, writes the text.** -/
theorem escape_puts (s : String) : Draft.Puts (Draft.expand (escape s) []) s := by
  obtain ⟨ts, hts, hs⟩ := escape_spells ('\x7d' ∉ ·) s.toList
  rw [String.ofList_toList] at hs
  have hparse : parse (escape s) = .ok ts := by
    rw [parse_eq_ok_iff, escape, Text.respell, String.toList_ofList]
    exact hts
  obtain ⟨hcount, hpositions⟩ := arity_of_literal hs
  have harity : checkArity (escape s) ts 0 = .ok () := by
    unfold checkArity
    rw [hcount, hpositions]
    rfl
  have hliteral : literal? (escape s) [] = some s := by
    unfold literal?
    rw [hparse]
    dsimp only [bind, Except.bind, List.length_nil]
    rw [harity]
    exact hs
  have hputs := Draft.expand_puts hliteral
  rwa [List.map_nil] at hputs

theorem expand_of_parse_error {e : TemplateError} (h : parse template = .error e) (slots : List Draft.Slot) (d : Draft) :
    (Draft.expand template slots).run d = (.error (.template e), d) := by
  unfold Draft.expand
  rw [h]
  rfl

/-- **Which texts are templates.**
1. A text is read as given tokens if and only if it consists of what these are written with, piece by piece: texts
   without a dollar sign, two dollar signs, `$K`, `$nK` with a position from one to the greatest, `${name:K}`, and
   `${C|}`. In named placeholders anything may follow the format, up to the closing brace.
2. So are the templates in which nothing follows it, which are the documented ones.
3. A text that is no template is refused whatever the arguments are, and nothing is written.
4. Any text can be written as a template without arguments, by doubling its dollar signs. -/
theorem parse_grammar (template : String) :
    (∀ ts, parse template = .ok ts ↔ Spells (fun surplus => '\x7d' ∉ surplus) ts template.toList) ∧
    (∀ ts, Spells (fun surplus => surplus = []) ts template.toList → parse template = .ok ts) ∧
    ((∀ ts, ¬ Spells (fun surplus => '\x7d' ∉ surplus) ts template.toList) →
      ∃ e, ∀ slots d, (Draft.expand template slots).run d = (.error (.template e), d)) ∧
    ∀ d : Draft, (Draft.expand (escape template) []).run d = (.ok (), d.put template) := by
  refine ⟨fun ts => parse_eq_ok_iff, fun ts h => ?_, fun h => ?_, escape_puts template⟩
  · refine parse_eq_ok_iff.2 (h.mono ?_)
    rintro _ rfl
    exact List.not_mem_nil
  · cases hparse : parse template with
    | ok ts => exact absurd (parse_eq_ok_iff.1 hparse) (h ts)
    | error e => exact ⟨e, expand_of_parse_error hparse⟩

theorem Placeholder.named_text {name : String} {f : Format} {piece : List Char}
    (h : Placeholder Surplus (.named name f) piece) :
    ∃ surplus, Surplus surplus ∧ piece = '\x7b' :: (name.toList ++ ':' :: formatChar f :: surplus ++ ['\x7d']) := by
  cases h with
  | named f hname hbrace hcolon hformat hsurplus =>
    exact ⟨_, hsurplus, by rw [String.toList_ofList]⟩

/-- What follows the format of a named placeholder is passed over, though no documented template has it. -/
theorem parse_grammar_surplus : parse "$\x7bname:Lx\x7d" = .ok [.named "name" .literal] ∧
    ∀ ts, ¬ Spells (fun surplus => surplus = []) ts "$\x7bname:Lx\x7d".toList := by
  obtain ⟨-, hdocumented, -⟩ := parse_grammar "$\x7bname:Lx\x7d"
  have hparse : parse "$\x7bname:Lx\x7d" = .ok [.named "name" .literal] := by with_unfolding_all rfl
  refine ⟨hparse, fun ts h => ?_⟩
  have heq := hdocumented ts h
  rw [hparse] at heq
  cases heq
  generalize htext : "$\x7bname:Lx\x7d".toList = text at h
  cases h with
  | placeholder ht hrest =>
    obtain ⟨surplus, rfl, rfl⟩ := ht.named_text
    cases hrest
    revert htext
    decide

end ClientGen.Template
