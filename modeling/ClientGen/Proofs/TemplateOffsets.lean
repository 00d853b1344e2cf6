import ClientGen.Proofs.TemplateGrammar

/-!
# Reading a template by byte offsets

A template can be read in place: the reader holds a byte offset into it and cuts out what it needs. A cut has to be
where a character ends. Whether it is depends on the lengths of the placeholders, which are given in bytes.

* `placeholderAt_eq`: the lengths of the placeholders are right.
* `parseAt_eq`: every cut is possible, and what is read is the same.
-/

namespace ClientGen

namespace Text

/-- How many bytes the characters take. -/
def byteSize (cs : List Char) : Nat := (String.ofList cs).utf8ByteSize

/-- The characters before and after a byte offset, if a character ends there. -/
def splitAt? : Nat → List Char → Option (List Char × List Char)
  | 0, cs => some ([], cs)
  | _ + 1, [] => none
  | i + 1, c :: cs =>
    if c.utf8Size ≤ i + 1 then (splitAt? (i + 1 - c.utf8Size) cs).map fun (before, after) => (c :: before, after)
    else none

/-- The characters from a byte offset on. -/
def sliceFrom? (i : Nat) (cs : List Char) : Option (List Char) := (splitAt? i cs).map (·.2)

/-- The characters between two byte offsets. -/
def slice? (i j : Nat) (cs : List Char) : Option (List Char) :=
  if i ≤ j then (sliceFrom? i cs).bind fun rest => (splitAt? (j - i) rest).map (·.1) else none

/-- The byte offset of the first `sep`. -/
def offset? (sep : Char) (cs : List Char) : Option Nat := (cut? sep cs).map fun (before, _) => byteSize before

@[simp] theorem byteSize_nil : byteSize [] = 0 := rfl

@[simp] theorem byteSize_cons (c : Char) (cs : List Char) : byteSize (c :: cs) = c.utf8Size + byteSize cs := by
  have hsplit : String.ofList (c :: cs) = String.singleton c ++ String.ofList cs := by
    rw [String.singleton_eq_ofList, ← String.ofList_append]
    rfl
  rw [byteSize, hsplit, String.utf8ByteSize_append, String.utf8ByteSize_singleton]
  rfl

@[simp] theorem byteSize_append (cs ds : List Char) : byteSize (cs ++ ds) = byteSize cs + byteSize ds := by
  rw [byteSize, String.ofList_append, String.utf8ByteSize_append]
  rfl

/-- **A text can be cut at an offset if and only if it is the size of its first characters.** -/
theorem splitAt?_eq_some_iff {i : Nat} {cs before after : List Char} :
    splitAt? i cs = some (before, after) ↔ cs = before ++ after ∧ byteSize before = i := by
  induction cs generalizing i before with
  | nil =>
    cases i with
    | zero =>
      constructor
      · rintro ⟨⟩
        exact ⟨rfl, rfl⟩
      · rintro ⟨h, -⟩
        obtain ⟨rfl, rfl⟩ := List.nil_eq_append_iff.1 h
        rfl
    | succ i =>
      constructor
      · rintro ⟨⟩
      · rintro ⟨h, hsize⟩
        obtain ⟨rfl, rfl⟩ := List.nil_eq_append_iff.1 h
        cases hsize
  | cons c cs ih =>
    cases before with
    | nil =>
      cases i with
      | zero => simp [splitAt?, eq_comm]
      | succ i =>
        -- a cut past the first character has it in front
        refine iff_of_false (fun h => ?_) fun h => ?_
        · rw [splitAt?] at h
          split at h
          · obtain ⟨x, -, hx⟩ := Option.map_eq_some_iff.1 h
            cases hx
          · cases h
        · cases h.2
    | cons b before =>
      have hpos := b.utf8Size_pos
      cases i with
      | zero =>
        refine iff_of_false (fun h => ?_) fun h => ?_
        · cases h
        · rw [byteSize_cons] at h
          omega
      | succ i =>
        rw [splitAt?, byteSize_cons, List.cons_append, List.cons.injEq]
        constructor
        · intro h
          split at h
          · obtain ⟨x, hx, heq⟩ := Option.map_eq_some_iff.1 h
            cases heq
            obtain ⟨hcs, hsize⟩ := ih.1 hx
            exact ⟨⟨rfl, hcs⟩, by omega⟩
          · cases h
        · rintro ⟨⟨rfl, hcs⟩, hsize⟩
          rw [if_pos (by omega), ih.2 ⟨hcs, by omega⟩]
          rfl

theorem sliceFrom?_append (before after : List Char) : sliceFrom? (byteSize before) (before ++ after) = some after := by
  rw [sliceFrom?, splitAt?_eq_some_iff.2 ⟨rfl, rfl⟩]
  rfl

theorem slice?_append (before part after : List Char) :
    slice? (byteSize before) (byteSize before + byteSize part) (before ++ (part ++ after)) = some part := by
  rw [slice?, if_pos (Nat.le_add_right _ _), sliceFrom?_append, Nat.add_sub_cancel_left]
  dsimp only [Option.bind_some]
  rw [splitAt?_eq_some_iff.2 ⟨rfl, rfl⟩]
  rfl

theorem byteSize_eq_length {cs : List Char} (h : ∀ c ∈ cs, c.utf8Size = 1) : byteSize cs = cs.length := by
  induction cs with
  | nil => rfl
  | cons c cs ih =>
    rw [byteSize_cons, h c List.mem_cons_self, ih fun d hd => h d (List.mem_cons_of_mem _ hd), List.length_cons,
      Nat.add_comm]

theorem utf8Size_of_isDigit {c : Char} (h : c.isDigit = true) : c.utf8Size = 1 := by
  rw [Char.utf8Size_eq_one_iff]
  simp only [Char.isDigit, Bool.and_eq_true, decide_eq_true_eq] at h
  exact UInt32.le_trans h.2 (by decide)

end Text

namespace Template

open Text

/-- The placeholder after a dollar sign, and how many bytes it takes. -/
def placeholderAt (template : String) (rest : List Char) : Option (Except TemplateError (Token × Nat)) :=
  match rest with
  | [] => some (.error (.dangling template))
  | '$' :: _ => some (.ok (.dollar, 1))
  | '\x7b' :: _ =>
    match offset? '\x7d' rest with
    | none => some (.error (.unterminated template))
    | some stop => (slice? 1 stop rest).map fun inner => (braced template inner).map fun token => (token, stop + 1)
  | c :: _ =>
    if c.isDigit then
      let length := (rest.takeWhile Char.isDigit).length
      (slice? 0 length rest).bind fun digits => (sliceFrom? length rest).map fun after =>
        let n := decimalValue digits
        if maxPosition < n then .error (.badPosition template)
        else if n = 0 then .error (.zeroPosition template)
        else (format template after.head?).map fun f => (.argument (.position n) f, length + 1)
    else some ((format template (some c)).map fun f => (.argument .next f, 1))

/-- The text between two offsets as a token, unless it is empty. -/
def textBetween (template : String) (i j : Nat) : Option (List Token) :=
  if i < j then (slice? i j template.toList).map fun text => [.text (String.ofList text)] else some []

/-- The tokens from a byte offset on; there may be at most `fuel` placeholders. -/
def tokensAt (template : String) : Nat → Nat → Option (Except TemplateError (List Token))
  | 0, _ => none
  | fuel + 1, i =>
    (sliceFrom? i template.toList).bind fun ahead =>
      match offset? '$' ahead with
      | none => (textBetween template i template.utf8ByteSize).map .ok
      | some distance =>
        let dollar := i + distance
        (textBetween template i dollar).bind fun text =>
          (sliceFrom? (dollar + 1) template.toList).bind fun rest =>
            (placeholderAt template rest).bind fun
              | .error e => some (.error e)
              | .ok (token, size) => (tokensAt template fuel (dollar + 1 + size)).map fun more =>
                more.map fun ts => text ++ token :: ts

/-- Reads a template by byte offsets. -/
def parseAt (template : String) : Option (Except TemplateError (List Token)) :=
  tokensAt template (template.toList.length + 1) 0

variable {template : String} {cs : List Char}

theorem utf8Size_formatChar (f : Format) : (formatChar f).utf8Size = 1 := by
  cases f <;> rfl

/-- **The lengths of the placeholders are right**: what is left after one is what follows that many bytes. -/
theorem placeholderAt_eq (cs : List Char) : placeholderAt template cs =
    some ((placeholder template cs).map fun x => (x.1, byteSize cs - byteSize x.2)) := by
  unfold placeholderAt
  split
  · rfl
  · next rest =>
    have hsize : byteSize ('$' :: rest) - byteSize rest = 1 := by
      rw [byteSize_cons, Nat.add_sub_cancel]
      rfl
    show _ = some (Except.ok (Token.dollar, byteSize ('$' :: rest) - byteSize rest))
    rw [hsize]
  · next rest =>
    have hbraces : '\x7b'.utf8Size = 1 ∧ '\x7d'.utf8Size = 1 := ⟨rfl, rfl⟩
    rw [placeholder, offset?, cut?, if_neg (by decide)]
    cases hcut : cut? '\x7d' rest with
    | none => rfl
    | some x =>
      -- both braces take one byte, so the cut is right behind the first and right before the other
      obtain ⟨inner, after⟩ := x
      obtain ⟨rfl, -⟩ := cut?_eq_some_iff.1 hcut
      have hslice := slice?_append ['\x7b'] inner ('\x7d' :: after)
      rw [← byteSize_append] at hslice
      change slice? 1 (byteSize ('\x7b' :: inner)) ('\x7b' :: (inner ++ '\x7d' :: after)) = some inner at hslice
      dsimp only [Option.map_some]
      rw [hslice, Option.map_some, map_map_except]
      refine congrArg some (map_congr_ok fun token _ => congrArg (Prod.mk token) ?_)
      simp only [byteSize_cons, byteSize_append, hbraces]
      omega
  · next c rest hdollar hbrace =>
    rw [placeholder_plain hdollar hbrace]
    split
    · dsimp only
      -- digits are counted, not measured, but take one byte each
      have hdigits : byteSize ((c :: rest).takeWhile Char.isDigit) = ((c :: rest).takeWhile Char.isDigit).length :=
        byteSize_eq_length fun d hd => utf8Size_of_isDigit (List.all_eq_true.1 List.all_takeWhile d hd)
      have hslice := slice?_append [] ((c :: rest).takeWhile Char.isDigit) ((c :: rest).dropWhile Char.isDigit)
      have hfrom := sliceFrom?_append ((c :: rest).takeWhile Char.isDigit) ((c :: rest).dropWhile Char.isDigit)
      rw [List.nil_append, List.takeWhile_append_dropWhile, byteSize_nil, Nat.zero_add, hdigits] at hslice
      rw [List.takeWhile_append_dropWhile, hdigits] at hfrom
      rw [hslice, Option.bind_some, hfrom, Option.map_some]
      split
      · rfl
      · split
        · rfl
        · rw [map_map_except]
          refine congrArg some (map_congr_ok fun f hf => congrArg (Prod.mk _) ?_)
          obtain ⟨tail, htail⟩ := List.head?_eq_some_iff.1 (format_eq_ok_iff.1 hf)
          have hsize : byteSize (c :: rest) = byteSize ((c :: rest).takeWhile Char.isDigit) +
              byteSize ((c :: rest).dropWhile Char.isDigit) := by
            rw [← byteSize_append, List.takeWhile_append_dropWhile]
          rw [hsize, hdigits, htail, byteSize_cons, utf8Size_formatChar, List.tail_cons]
          dsimp only
          omega
    · rw [map_map_except]
      refine congrArg some (map_congr_ok fun f hf => congrArg (Prod.mk _) ?_)
      rw [Option.some.inj (format_eq_ok_iff.1 hf), byteSize_cons, utf8Size_formatChar, Nat.add_sub_cancel]

/-! ### The scan -/

theorem tokens_fuel : ∀ {fuel fuel' : Nat} {cs : List Char}, cs.length < fuel → cs.length < fuel' →
    tokens template fuel cs = tokens template fuel' cs := by
  intro fuel
  induction fuel with
  | zero => exact fun h => absurd h (Nat.not_lt_zero _)
  | succ fuel ih =>
    intro fuel' cs hfuel hfuel'
    obtain ⟨fuel', rfl⟩ := Nat.exists_eq_succ_of_ne_zero (Nat.ne_zero_of_lt hfuel')
    cases cs with
    | nil => rfl
    | cons c cs =>
      rw [List.length_cons] at hfuel hfuel'
      by_cases hc : c = '$'
      · subst hc
        rw [tokens, tokens]
        refine bind_congr_ok fun x hx => ?_
        obtain ⟨token, after⟩ := x
        obtain ⟨piece, -, rfl⟩ := placeholder_eq_ok_iff.1 hx
        rw [List.length_append] at hfuel hfuel'
        have hafter : tokens template fuel after = tokens template fuel' after := ih (by omega) (by omega)
        dsimp only
        rw [hafter]
      · have hlength : ((c :: cs).dropWhile (· != '$')).length ≤ cs.length := by
          rw [List.dropWhile_cons_of_pos (p := (· != '$')) (bne_iff_ne.2 hc)]
          exact (List.dropWhile_sublist _).length_le
        have hrest : tokens template fuel ((c :: cs).dropWhile (· != '$')) =
            tokens template fuel' ((c :: cs).dropWhile (· != '$')) := ih (by omega) (by omega)
        rw [tokens_text hc, tokens_text hc, hrest]

/-- The token of a text, unless it is empty. -/
def textTokens (text : List Char) : List Token := if text = [] then [] else [.text (String.ofList text)]

theorem tokens_last {text : List Char} (htext : '$' ∉ text) (fuel : Nat) :
    tokens template (fuel + 1) text = .ok (textTokens text) := by
  cases text with
  | nil => rfl
  | cons c text =>
    have hread := @tokens_append template c text [] htext rfl fuel
    rw [List.append_nil] at hread
    rw [hread]
    cases fuel <;> rfl

theorem tokens_cut {text rest : List Char} {fuel : Nat} (htext : '$' ∉ text)
    (hfuel : (text ++ '$' :: rest).length < fuel + 1) : tokens template (fuel + 1) (text ++ '$' :: rest) =
      placeholder template rest >>= fun x => tokens template fuel x.2 >>= fun ts =>
        pure (textTokens text ++ x.1 :: ts) := by
  cases text with
  | nil => rfl
  | cons c text =>
    rw [List.cons_append, List.length_cons, List.length_append, List.length_cons] at hfuel
    obtain ⟨fuel, rfl⟩ := Nat.exists_eq_succ_of_ne_zero (show fuel ≠ 0 by omega)
    rw [tokens_append htext rfl, tokens, bind_assoc]
    refine bind_congr_ok fun x hx => ?_
    obtain ⟨token, after⟩ := x
    obtain ⟨piece, -, rfl⟩ := placeholder_eq_ok_iff.1 hx
    rw [List.length_append] at hfuel
    have hafter : tokens template fuel after = tokens template (fuel + 1) after := tokens_fuel (by omega) (by omega)
    dsimp only
    rw [bind_assoc, hafter]
    rfl

theorem textBetween_eq {before text after : List Char} (h : template.toList = before ++ (text ++ after)) :
    textBetween template (byteSize before) (byteSize before + byteSize text) = some (textTokens text) := by
  unfold textBetween textTokens
  cases text with
  | nil => rw [byteSize_nil, Nat.add_zero, if_neg (Nat.lt_irrefl _), if_pos rfl]
  | cons c text =>
    have hpos : byteSize before < byteSize before + byteSize (c :: text) := by
      rw [byteSize_cons]
      have := c.utf8Size_pos
      omega
    rw [if_pos hpos, if_neg (List.cons_ne_nil c text), h, slice?_append]
    rfl

theorem tokensAt_eq : ∀ {fuel : Nat} {before after : List Char}, template.toList = before ++ after →
    after.length < fuel → tokensAt template fuel (byteSize before) = some (tokens template fuel after) := by
  intro fuel
  induction fuel with
  | zero => exact fun _ h => absurd h (Nat.not_lt_zero _)
  | succ fuel ih =>
    intro before after htemplate hfuel
    rw [tokensAt, htemplate, sliceFrom?_append, Option.bind_some, offset?]
    cases hcut : cut? '$' after with
    | none =>
      have htext : template.toList = before ++ (after ++ []) := by rw [htemplate, List.append_nil]
      have hsize : template.utf8ByteSize = byteSize before + byteSize after := by
        rw [← byteSize_append, ← htemplate, byteSize, String.ofList_toList]
      rw [tokens_last (cut?_eq_none_iff.1 hcut), hsize]
      dsimp only [Option.map_none]
      rw [textBetween_eq htext]
      rfl
    | some x =>
      obtain ⟨text, rest⟩ := x
      obtain ⟨rfl, htext⟩ := cut?_eq_some_iff.1 hcut
      -- the offsets of the dollar sign and of what follows it
      have hdollar : byteSize (before ++ text ++ ['$']) = byteSize before + byteSize text + 1 := by
        simp only [byteSize_append, byteSize_cons, byteSize_nil]
        rfl
      have hrest : before ++ (text ++ '$' :: rest) = before ++ text ++ ['$'] ++ rest := by simp
      have hfrom := sliceFrom?_append (before ++ text ++ ['$']) rest
      rw [hdollar] at hfrom
      rw [tokens_cut htext hfuel]
      dsimp only [Option.map_some]
      rw [textBetween_eq htemplate, Option.bind_some, hrest, hfrom, Option.bind_some, placeholderAt_eq, Option.bind_some]
      cases hread : placeholder template rest with
      | error e => rfl
      | ok x =>
        obtain ⟨token, later⟩ := x
        obtain ⟨piece, -, rfl⟩ := placeholder_eq_ok_iff.1 hread
        have hsize : byteSize (before ++ text ++ ['$'] ++ piece) =
            byteSize before + byteSize text + 1 + (byteSize (piece ++ later) - byteSize later) := by
          rw [byteSize_append _ piece, hdollar, byteSize_append piece, Nat.add_sub_cancel]
        have hlater : template.toList = before ++ text ++ ['$'] ++ piece ++ later := by
          rw [htemplate, hrest, ← List.append_assoc]
        have hlength : later.length < fuel := by
          simp only [List.length_append, List.length_cons] at hfuel
          omega
        have hmore := ih hlater hlength
        rw [hsize] at hmore
        dsimp only [Except.map, bind, Except.bind]
        rw [hmore]
        cases tokens template fuel later <;> rfl

/-- **A template can be read by byte offsets**: every cut is where a character ends, and the tokens are the same. -/
theorem parseAt_eq (template : String) : parseAt template = some (parse template) :=
  tokensAt_eq (List.nil_append _).symm (Nat.lt_succ_self _)

end Template

end ClientGen
