import ClientGen.Package.Literal
import ClientGen.Proofs.NumberText

/-!
# Literals are read back

A reader for the literals of Python: the three words, numbers, strings in double quotes, and displays of lists and
dictionaries. Applied to the literal of a JSON value it takes the whole text and returns the value, where numbers
stay as they are written. Since different numbers are written differently, so are different values.

* `Literal.readSeq_intercalate`: a display is read back if its parts are.
* `Literal.readValue_literal`: the literal of a value is read back, whatever stands behind it that is not part
  of a number.
* `Json.literal_round_trip`: all of this, for whole texts.
-/

namespace ClientGen

/-- A literal, with numbers as they are written. -/
inductive Literal where
  | null
  | bool (b : Bool)
  | number (text : String)
  | str (s : String)
  | list (items : List Literal)
  | dict (entries : List (String × Literal))

namespace Literal

/-! ### Reading -/

/-- What a character behind a backslash stands for. -/
def unescape : Char → Option Char
  | '\\' => some '\\'
  | '"' => some '"'
  | 'n' => some '\n'
  | 'r' => some '\r'
  | 't' => some '\t'
  | _ => none

/-- Reads a string from behind its opening quote: its value, and the text behind the closing quote. -/
def readString : List Char → Option (List Char × List Char)
  | '"' :: rest => some ([], rest)
  | '\\' :: c :: rest => (unescape c).bind fun c => (readString rest).map fun r => (c :: r.1, r.2)
  | c :: rest => if c = '\\' ∨ c = '\n' ∨ c = '\r' then none else (readString rest).map fun r => (c :: r.1, r.2)
  | [] => none

def isDigits (cs : List Char) : Bool := !cs.isEmpty && cs.all Char.isDigit

/-- The exponent of a number: digits, maybe with a sign. -/
def isExponent : List Char → Bool
  | '+' :: ds => isDigits ds
  | '-' :: ds => isDigits ds
  | ds => isDigits ds

/-- A number without a sign: digits, maybe with a point and an exponent. A whole number of two digits and more does not
begin with a zero. -/
def isUnsigned (cs : List Char) : Bool :=
  let front := cs.takeWhile (· != 'e')
  let exponent := cs.dropWhile (· != 'e')
  let whole := front.takeWhile (· != '.')
  let fraction := front.dropWhile (· != '.')
  isDigits whole && fraction.tail.all Char.isDigit && (exponent.isEmpty || isExponent exponent.tail) &&
    (!fraction.isEmpty || !exponent.isEmpty || whole.length == 1 || whole.head? != some '0')

def isNumber : List Char → Bool
  | '-' :: cs => isUnsigned cs
  | cs => isUnsigned cs

/-- The characters of numbers. -/
def isNumberChar (c : Char) : Bool := c.isDigit || c == '-' || c == '+' || c == '.' || c == 'e'

/-- Reads a number: all the characters that can belong to one. -/
def readNumber (cs : List Char) : Option (Literal × List Char) :=
  let run := cs.takeWhile isNumberChar
  if isNumber run then some (.number (String.ofList run), cs.dropWhile isNumberChar) else none

def words : List (List Char × Literal) :=
  [("None".toList, .null), ("True".toList, .bool true), ("False".toList, .bool false)]

def readWord (cs : List Char) : Option (Literal × List Char) :=
  words.findSome? fun w => (w.1.isPrefixOf? cs).map fun rest => (w.2, rest)

def isGap (c : Char) : Bool := c == ' ' || c == '\t' || c == '\n' || c == '\r'

/-- Reads the parts of a display from behind its opening bracket, with commas between them, up to the closing one. -/
def readSeq {α : Type} (readPart : List Char → Option (α × List Char)) (close : Char) :
    Nat → List Char → Option (List α × List Char)
  | 0, _ => none
  | fuel + 1, cs =>
    match cs.dropWhile isGap with
    | [] => none
    | c :: rest =>
      if c = close then some ([], rest)
      else (readPart (c :: rest)).bind fun part =>
        match part.2.dropWhile isGap with
        | [] => none
        | c :: rest =>
          if c = close then some ([part.1], rest)
          else if c = ',' then (readSeq readPart close fuel rest).map fun more => (part.1 :: more.1, more.2)
          else none

/-- Reads a key, a colon and a value. -/
def readEntry (readPart : List Char → Option (Literal × List Char)) :
    List Char → Option ((String × Literal) × List Char)
  | '"' :: rest =>
    (readString rest).bind fun key =>
      match key.2.dropWhile isGap with
      | ':' :: rest =>
        (readPart (rest.dropWhile isGap)).map fun part => ((String.ofList key.1, part.1), part.2)
      | _ => none
  | _ => none

/-- Reads a literal: its value, and the text behind it. No text has more levels and parts than characters. -/
def readValue : Nat → List Char → Option (Literal × List Char)
  | 0, _ => none
  | _ + 1, '"' :: rest => (readString rest).map fun r => (.str (String.ofList r.1), r.2)
  | fuel + 1, '[' :: rest => (readSeq (readValue fuel) ']' fuel rest).map fun r => (.list r.1, r.2)
  | fuel + 1, '\x7b' :: rest =>
    (readSeq (readEntry (readValue fuel)) '\x7d' fuel rest).map fun r => (.dict r.1, r.2)
  | _ + 1, cs => (readWord cs).or (readNumber cs)

/-- Reads a text that is a literal and nothing else. -/
def read (text : String) : Option Literal :=
  (readValue text.length text.toList).bind fun r => if r.2 = [] then some r.1 else none

/-! ### JSON values as literals -/

mutual

/-- The literal that a JSON value is written as. -/
def ofJson : Json → Literal
  | .null => .null
  | .bool b => .bool b
  | .int n => .number (toString n)
  | .float x => .number (Json.floatText x)
  | .str s => .str s
  | .arr items => .list (ofItems items)
  | .obj members => .dict (ofMembers members)

def ofItems : List Json → List Literal
  | [] => []
  | v :: rest => ofJson v :: ofItems rest

def ofMembers : List (String × Json) → List (String × Literal)
  | [] => []
  | (k, v) :: rest => (k, ofJson v) :: ofMembers rest

end

theorem ofItems_eq (items : List Json) : ofItems items = items.map ofJson := by
  induction items with
  | nil => rfl
  | cons v rest ih => rw [ofItems, ih, List.map_cons]

theorem ofMembers_eq (members : List (String × Json)) :
    ofMembers members = members.map fun m => (m.1, ofJson m.2) := by
  induction members with
  | nil => rfl
  | cons m rest ih =>
    obtain ⟨k, v⟩ := m
    rw [ofMembers, ih, List.map_cons]

/-! ### Strings -/

theorem readString_cons {c : Char} (cs : List Char) (hquote : c ≠ '"') (hplain : ¬(c = '\\' ∨ c = '\n' ∨ c = '\r')) :
    readString (c :: cs) = (readString cs).map fun r => (c :: r.1, r.2) := by
  rw [readString.eq_def]
  split
  · next heq => exact absurd (List.cons.inj heq).1 hquote
  · next heq => exact absurd (.inl (List.cons.inj heq).1) hplain
  · next heq =>
    obtain ⟨rfl, rfl⟩ := List.cons.inj heq
    rw [if_neg hplain]
  · next heq => exact absurd heq (List.cons_ne_nil _ _)

theorem readString_quoteChar (c : Char) (cs : List Char) :
    readString (Text.quoteChar c ++ cs) = (readString cs).map fun r => (c :: r.1, r.2) := by
  unfold Text.quoteChar
  split
  · rfl
  · rfl
  · rfl
  · rfl
  · rfl
  · next hquote hbackslash hnewline hreturn _ =>
    refine readString_cons cs hquote ?_
    rintro (h | h | h)
    · exact hbackslash h
    · exact hnewline h
    · exact hreturn h

/-- **A quoted text is read back**, up to the quote behind it. -/
theorem readString_quoted (cs rest : List Char) :
    readString (cs.flatMap Text.quoteChar ++ '"' :: rest) = some (cs, rest) := by
  induction cs with
  | nil => rfl
  | cons c cs ih =>
    rw [List.flatMap_cons, List.append_assoc, readString_quoteChar, ih]
    rfl

theorem toList_quote (s : String) : (Text.quote s).toList = '"' :: (s.toList.flatMap Text.quoteChar ++ ['"']) := by
  unfold Text.quote
  rw [String.toList_ofList, List.cons_append]

theorem quote_append (s : String) (rest : List Char) :
    (Text.quote s).toList ++ rest = '"' :: (s.toList.flatMap Text.quoteChar ++ '"' :: rest) := by
  rw [toList_quote, List.cons_append, List.append_assoc, List.singleton_append]

/-! ### Numbers -/

/-- What stands behind a number does not continue it. -/
def Ends (rest : List Char) : Prop := ∀ c ∈ rest.head?, isNumberChar c = false

theorem isNumberChar_of_mem {n : Decimal.Numeral} {negative : Bool} {c : Char} (h : c ∈ n.signed negative) :
    isNumberChar c = true := by
  unfold isNumberChar
  unfold Decimal.Numeral.signed Decimal.Numeral.chars at h
  rcases List.mem_append.1 h with h | h
  · split at h
    · simp [List.mem_singleton.1 h]
    · cases h
  · rcases List.mem_append.1 h with h | h
    · rcases List.mem_append.1 h with h | h
      · simp [n.whole_digits c h]
      · rcases Decimal.Numeral.mem_pointChars h with rfl | h <;> simp [*]
    · rcases Decimal.Numeral.mem_exponentChars h with rfl | rfl | rfl | h <;> simp [*]

theorem isExponent_chars (n : Decimal.Numeral) :
    (n.exponentChars.isEmpty || isExponent n.exponentChars.tail) = true := by
  have hdigits : ∀ k, isDigits (Nat.toDigits 10 k) = true := by
    intro k
    have hall : (Nat.toDigits 10 k).all Char.isDigit = true :=
      List.all_eq_true.2 fun c hc => Nat.isDigit_of_mem_toDigits (by decide) (by decide) hc
    simp [isDigits, hall, Nat.toDigits_ne_nil]
  unfold Decimal.Numeral.exponentChars
  cases n.exponent with
  | none => rfl
  | some e =>
    by_cases he : 0 ≤ e
    · simp [he, isExponent, hdigits]
    · simp [he, isExponent, hdigits]

theorem isUnsigned_chars (n : Decimal.Numeral) : isUnsigned n.chars = true := by
  have hwhole : isDigits n.whole = true := by
    simp [isDigits, n.whole_ne_nil, List.all_eq_true.2 n.whole_digits]
  have hhead : (!n.pointChars.isEmpty || !n.exponentChars.isEmpty || n.whole.length == 1 ||
      n.whole.head? != some '0') = true := by
    have hzero := n.head_ne_zero
    unfold Decimal.Numeral.pointChars Decimal.Numeral.exponentChars
    cases hfraction : n.fraction with
    | some ds => simp
    | none =>
      cases hexponent : n.exponent with
      | some e => simp
      | none => simpa using hzero hfraction hexponent
  unfold isUnsigned
  dsimp only
  rw [n.chars_cut.1, n.chars_cut.2, n.point_cut.1, n.point_cut.2, n.tail_pointChars, hwhole, hhead, isExponent_chars,
    List.all_eq_true.2 n.fraction_digits]
  rfl

theorem isNumber_signed (n : Decimal.Numeral) (negative : Bool) : isNumber (n.signed negative) = true := by
  have hchars := isUnsigned_chars n
  cases negative with
  | true => exact hchars
  | false =>
    show isNumber n.chars = true
    obtain ⟨c, rest, hcons, hc⟩ := n.exists_head
    unfold isNumber
    split
    · next heq =>
      rw [hcons] at heq
      exact absurd (List.cons.inj heq).1 (Decimal.Numeral.ne_of_isDigit hc (by decide))
    · exact hchars

/-- **A numeral is read as it is written.** -/
theorem readNumber_signed (n : Decimal.Numeral) (negative : Bool) {rest : List Char} (hrest : Ends rest) :
    readNumber (n.signed negative ++ rest) = some (.number (String.ofList (n.signed negative)), rest) := by
  obtain ⟨htake, hdrop⟩ := Decimal.Numeral.cut_append (fun c hc => isNumberChar_of_mem hc) hrest
  unfold readNumber
  dsimp only
  rw [htake, hdrop, isNumber_signed, if_pos rfl]

/-! ### Displays -/

/-- The text is read as a part of a display: it does not begin like the end of the display, and what stands behind it
is left. -/
structure PartOf {α : Type} (readPart : List Char → Option (α × List Char)) (close : Char) (cs : List Char) (v : α) :
    Prop where
  head : ∃ c rest, cs = c :: rest ∧ isGap c = false ∧ c ≠ close
  read : ∀ {rest}, Ends rest → readPart (cs ++ rest) = some (v, rest)

/-- A character that closes displays. -/
structure Closes (close : Char) : Prop where
  not_gap : isGap close = false
  not_number : isNumberChar close = false
  ne_comma : close ≠ ','

section
variable {α β : Type} {readPart : List Char → Option (α × List Char)} {close : Char} {cs rest : List Char} {v : α}

theorem dropWhile_isGap {c : Char} (h : isGap c = false) (cs : List Char) : (c :: cs).dropWhile isGap = c :: cs := by
  rw [List.dropWhile_cons, if_neg (by rw [h]; decide)]

theorem readSeq_last (hclose : Closes close) (h : PartOf readPart close cs v) (fuel : Nat) :
    readSeq readPart close (fuel + 1) (cs ++ close :: rest) = some ([v], rest) := by
  have hends : Ends (close :: rest) := by
    rintro c ⟨⟩
    exact hclose.not_number
  have hread := h.read hends
  obtain ⟨c, cs, rfl, hgap, hne⟩ := h.head
  rw [List.cons_append] at hread ⊢
  rw [readSeq, dropWhile_isGap hgap]
  dsimp only
  rw [if_neg hne, hread, Option.bind_some]
  dsimp only
  rw [dropWhile_isGap hclose.not_gap]
  exact if_pos rfl

theorem readSeq_more (hclose : Closes close) (h : PartOf readPart close cs v) (fuel : Nat) :
    readSeq readPart close (fuel + 1) (cs ++ ',' :: rest) =
      (readSeq readPart close fuel rest).map fun more => (v :: more.1, more.2) := by
  have hends : Ends (',' :: rest) := by
    rintro c ⟨⟩
    decide
  have hread := h.read hends
  obtain ⟨c, cs, rfl, hgap, hne⟩ := h.head
  rw [List.cons_append] at hread ⊢
  rw [readSeq, dropWhile_isGap hgap]
  dsimp only
  rw [if_neg hne, hread, Option.bind_some]
  dsimp only
  rw [dropWhile_isGap (by decide)]
  dsimp only
  rw [if_neg hclose.ne_comma.symm, if_pos rfl]

theorem readSeq_space (fuel : Nat) (cs : List Char) :
    readSeq readPart close fuel (' ' :: cs) = readSeq readPart close fuel cs := by
  cases fuel with
  | zero => rfl
  | succ fuel =>
    have hspace : (' ' :: cs).dropWhile isGap = cs.dropWhile isGap := rfl
    rw [readSeq, readSeq, hspace]

/-- **A display is read back** if each of its parts is. -/
theorem readSeq_intercalate (hclose : Closes close) {text : β → List Char} {value : β → α} :
    ∀ (xs : List β) (fuel : Nat), xs.length < fuel → (∀ x ∈ xs, PartOf readPart close (text x) (value x)) →
      readSeq readPart close fuel ([',', ' '].intercalate (xs.map text) ++ close :: rest) =
        some (xs.map value, rest) := by
  intro xs
  -- Each call reads one part and the comma; the space behind it is skipped by the next call.
  induction xs with
  | nil =>
    intro fuel hfuel _
    obtain ⟨fuel, rfl⟩ := Nat.exists_eq_add_one_of_ne_zero hfuel.ne'
    rw [List.map_nil, List.intercalate_nil, List.nil_append, readSeq, dropWhile_isGap hclose.not_gap]
    exact if_pos rfl
  | cons x xs ih =>
    intro fuel hfuel hparts
    obtain ⟨fuel, rfl⟩ := Nat.exists_eq_add_one_of_ne_zero (Nat.ne_zero_of_lt hfuel)
    have hx := hparts x List.mem_cons_self
    cases xs with
    | nil =>
      rw [List.map_singleton, List.intercalate_singleton]
      exact readSeq_last hclose hx fuel
    | cons y ys =>
      have hrest := ih fuel (Nat.lt_of_succ_lt_succ hfuel) fun z hz => hparts z (List.mem_cons_of_mem _ hz)
      have hsplit : [',', ' '].intercalate ((x :: y :: ys).map text) ++ close :: rest =
          text x ++ ',' :: ' ' :: ([',', ' '].intercalate ((y :: ys).map text) ++ close :: rest) := by
        rw [List.map_cons, List.map_cons, List.intercalate_cons_cons]
        simp
      rw [hsplit, readSeq_more hclose hx, readSeq_space, hrest]
      rfl

end

theorem sum_length_le_intercalate (sep : List Char) (xs : List (List Char)) :
    (xs.map List.length).sum ≤ (sep.intercalate xs).length := by
  induction xs with
  | nil => simp
  | cons x xs ih =>
    cases xs with
    | nil => simp
    | cons y ys =>
      rw [List.intercalate_cons_cons, List.length_append, List.length_append, List.map_cons, List.sum_cons]
      omega

/-- A display has no more parts than characters, and no part is longer, so that its length is enough to read it. -/
theorem readSeq_display {α β : Type} {readPart : List Char → Option (α × List Char)} {close : Char}
    (hclose : Closes close) {text : β → List Char} {value : β → α} {xs : List β} (hne : ∀ x, text x ≠ []) {fuel : Nat}
    (hfuel : ([',', ' '].intercalate (xs.map text)).length < fuel)
    (hparts : ∀ x ∈ xs, (text x).length ≤ fuel → PartOf readPart close (text x) (value x)) (rest : List Char) :
    readSeq readPart close fuel ([',', ' '].intercalate (xs.map text) ++ close :: rest) =
      some (xs.map value, rest) := by
  have hsum := sum_length_le_intercalate [',', ' '] (xs.map text)
  rw [List.map_map] at hsum
  have hcount : xs.length ≤ (xs.map (List.length ∘ text)).sum := by
    have hone : ∀ i ∈ xs.map (List.length ∘ text), 1 ≤ i := by
      intro i hi
      obtain ⟨x, -, rfl⟩ := List.mem_map.1 hi
      exact List.length_pos_iff.2 (hne x)
    simpa using List.length_le_sum_of_one_le _ hone
  refine readSeq_intercalate hclose xs fuel (by omega) fun x hx => hparts x hx ?_
  have hlength : (text x).length ≤ (xs.map (List.length ∘ text)).sum := List.le_sum_of_mem (List.mem_map_of_mem hx)
  omega

end Literal

namespace Json

/-! ### The texts of displays -/

/-- Induction on values: an array and an object follow from what they hold. -/
theorem nested_induction {P : Json → Prop} (null : P .null) (bool : ∀ b, P (.bool b)) (int : ∀ n, P (.int n))
    (float : ∀ x, P (.float x)) (str : ∀ s, P (.str s)) (arr : ∀ items, (∀ v ∈ items, P v) → P (.arr items))
    (obj : ∀ members, (∀ m ∈ members, P m.2) → P (.obj members)) (v : Json) : P v :=
  @Json.rec P (fun items => ∀ v ∈ items, P v) (fun members => ∀ m ∈ members, P m.2) (fun m => P m.2)
    null bool int float str arr obj (fun _ h => absurd h List.not_mem_nil)
    (fun _ _ hv hrest => List.forall_mem_cons.2 ⟨hv, hrest⟩) (fun _ h => absurd h List.not_mem_nil)
    (fun _ _ hm hrest => List.forall_mem_cons.2 ⟨hm, hrest⟩) (fun _ _ hv => hv) v

/-- A member of an object, as it is written. -/
def memberChars (m : String × Json) : List Char := (Text.quote m.1).toList ++ ':' :: ' ' :: m.2.literal.toList

theorem itemLiterals_eq (items : List Json) : itemLiterals items = items.map literal := by
  induction items with
  | nil => rfl
  | cons v rest ih => rw [itemLiterals, ih, List.map_cons]

theorem memberLiterals_eq (members : List (String × Json)) :
    (memberLiterals members).map String.toList = members.map memberChars := by
  induction members with
  | nil => rfl
  | cons m rest ih =>
    obtain ⟨k, v⟩ := m
    rw [memberLiterals, List.map_cons, List.map_cons, ih, String.toList_append, String.toList_append, List.append_assoc]
    rfl

theorem toList_literal_arr (items : List Json) : (Json.arr items).literal.toList =
    '[' :: ([',', ' '].intercalate (items.map fun v => v.literal.toList) ++ [']']) := by
  rw [literal, String.toList_append, String.toList_append, String.toList_intercalate, itemLiterals_eq, List.map_map]
  rfl

theorem toList_literal_obj (members : List (String × Json)) : (Json.obj members).literal.toList =
    '\x7b' :: ([',', ' '].intercalate (members.map memberChars) ++ ['\x7d']) := by
  rw [literal, String.toList_append, String.toList_append, String.toList_intercalate, memberLiterals_eq]
  rfl

end Json

namespace Literal

variable {fuel : Nat} {rest : List Char}

theorem Ends.nil : Ends [] := fun _ h => absurd h (by simp)

theorem exists_head_signed (n : Decimal.Numeral) (negative : Bool) :
    ∃ c cs, n.signed negative = c :: cs ∧ (c = '-' ∨ c.isDigit = true) := by
  cases negative with
  | true => exact ⟨'-', n.chars, rfl, .inl rfl⟩
  | false =>
    obtain ⟨c, cs, hchars, hc⟩ := n.exists_head
    exact ⟨c, cs, hchars, .inr hc⟩

theorem ne_of_number_head {c d : Char} (h : c = '-' ∨ c.isDigit = true) (hminus : d ≠ '-')
    (hdigit : d.isDigit = false) : c ≠ d := by
  rcases h with rfl | h
  · exact hminus.symm
  · exact Decimal.Numeral.ne_of_isDigit h hdigit

theorem exists_head (v : Json) : ∃ c cs, v.literal.toList = c :: cs ∧ isGap c = false ∧ c ≠ ']' ∧ c ≠ '\x7d' := by
  have hnumeral : ∀ (n : Decimal.Numeral) (negative : Bool),
      ∃ c cs, n.signed negative = c :: cs ∧ isGap c = false ∧ c ≠ ']' ∧ c ≠ '\x7d' := by
    intro n negative
    obtain ⟨c, cs, hcons, hc⟩ := exists_head_signed n negative
    have hne : ∀ d, d ≠ '-' → d.isDigit = false → c ≠ d := fun d => ne_of_number_head hc
    refine ⟨c, cs, hcons, ?_, hne _ (by decide) (by decide), hne _ (by decide) (by decide)⟩
    simp [isGap, hne ' ', hne '\t', hne '\n', hne '\r']
  cases v with
  | null => exact ⟨_, _, rfl, by decide⟩
  | bool b => cases b <;> exact ⟨_, _, rfl, by decide⟩
  | int n =>
    obtain ⟨m, hm, -⟩ := Json.toString_int_numeral n
    rw [Json.literal, hm]
    exact hnumeral m _
  | float x =>
    obtain ⟨m, hm, -⟩ := Json.floatText_numeral x
    rw [Json.literal, hm]
    exact hnumeral m _
  | str s => exact ⟨_, _, toList_quote s, by decide⟩
  | arr items => exact ⟨_, _, Json.toList_literal_arr items, by decide⟩
  | obj members => exact ⟨_, _, Json.toList_literal_obj members, by decide⟩

theorem toList_literal_ne_nil (v : Json) : v.literal.toList ≠ [] := by
  obtain ⟨c, cs, hcons, -⟩ := exists_head v
  rw [hcons]
  exact List.cons_ne_nil c cs

theorem exists_fuel (v : Json) (h : v.literal.length ≤ fuel) : ∃ n, fuel = n + 1 := by
  have hpos : 0 < v.literal.toList.length := List.length_pos_iff.2 (toList_literal_ne_nil v)
  rw [String.length_toList] at hpos
  exact Nat.exists_eq_add_one_of_ne_zero (by omega)

theorem readValue_signed (n : Decimal.Numeral) (negative : Bool) (hrest : Ends rest) :
    readValue (fuel + 1) (n.signed negative ++ rest) = some (.number (String.ofList (n.signed negative)), rest) := by
  have hread := readNumber_signed n negative hrest
  obtain ⟨c, cs, hcons, hc⟩ := exists_head_signed n negative
  -- The first character rules out strings, displays and words.
  have hne : ∀ d, d ≠ '-' → d.isDigit = false → c ≠ d := fun d => ne_of_number_head hc
  have hword : readWord (c :: (cs ++ rest)) = none := by
    simp [readWord, words, List.isPrefixOf?, (hne 'N' (by decide) (by decide)).symm,
      (hne 'T' (by decide) (by decide)).symm, (hne 'F' (by decide) (by decide)).symm]
  rw [hcons, List.cons_append] at hread ⊢
  rw [readValue.eq_def]
  split
  · next heq => cases heq
  · next heq => exact absurd (List.cons.inj heq).1 (hne _ (by decide) (by decide))
  · next heq => exact absurd (List.cons.inj heq).1 (hne _ (by decide) (by decide))
  · next heq => exact absurd (List.cons.inj heq).1 (hne _ (by decide) (by decide))
  · rw [hword, hread, Option.none_or]

theorem readValue_quote (s : String) :
    readValue (fuel + 1) ((Text.quote s).toList ++ rest) = some (.str s, rest) := by
  rw [quote_append, readValue, readString_quoted, Option.map_some]
  dsimp only
  rw [String.ofList_toList]

theorem partOf_value {v : Json} (h : ∀ {rest}, Ends rest →
    readValue fuel (v.literal.toList ++ rest) = some (ofJson v, rest)) :
    PartOf (readValue fuel) ']' v.literal.toList (ofJson v) := by
  obtain ⟨c, cs, hcons, hgap, hne, -⟩ := exists_head v
  exact ⟨⟨c, cs, hcons, hgap, hne⟩, h⟩

theorem partOf_member {m : String × Json} (h : ∀ {rest}, Ends rest →
    readValue fuel (m.2.literal.toList ++ rest) = some (ofJson m.2, rest)) :
    PartOf (readEntry (readValue fuel)) '\x7d' (Json.memberChars m) (m.1, ofJson m.2) := by
  refine ⟨⟨'"', _, quote_append _ _, by decide, by decide⟩, ?_⟩
  intro rest hrest
  have hspace : (' ' :: (m.2.literal.toList ++ rest)).dropWhile isGap = m.2.literal.toList ++ rest := by
    obtain ⟨c, cs, hcons, hgap, -⟩ := exists_head m.2
    rw [hcons]
    exact dropWhile_isGap hgap _
  have hcolon := dropWhile_isGap (show isGap ':' = false by decide) (' ' :: (m.2.literal.toList ++ rest))
  rw [Json.memberChars, List.append_assoc, quote_append, readEntry, readString_quoted, Option.bind_some]
  dsimp only [List.cons_append]
  rw [hcolon]
  show ((readValue fuel ((' ' :: (m.2.literal.toList ++ rest)).dropWhile isGap)).map fun part =>
    ((String.ofList m.1.toList, part.1), part.2)) = _
  rw [hspace, h hrest, Option.map_some, String.ofList_toList]

theorem closes_list : Closes ']' := ⟨by decide, by decide, by decide⟩

theorem closes_dict : Closes '\x7d' := ⟨by decide, by decide, by decide⟩

/-- **The literal of a value is read back**, and what stands behind it is left. -/
theorem readValue_literal (v : Json) : ∀ {fuel : Nat} {rest : List Char}, v.literal.length ≤ fuel → Ends rest →
    readValue fuel (v.literal.toList ++ rest) = some (ofJson v, rest) := by
  -- A level of brackets takes one unit of fuel and two characters, so the length of the text stays a bound.
  induction v using Json.nested_induction with
  | null =>
    intro fuel rest hfuel _
    obtain ⟨fuel, rfl⟩ := exists_fuel .null hfuel
    rfl
  | bool b =>
    intro fuel rest hfuel _
    obtain ⟨fuel, rfl⟩ := exists_fuel (.bool b) hfuel
    cases b <;> rfl
  | int n =>
    intro fuel rest hfuel hrest
    obtain ⟨fuel, rfl⟩ := exists_fuel (.int n) hfuel
    obtain ⟨m, hm, -⟩ := Json.toString_int_numeral n
    rw [Json.literal, hm, readValue_signed m _ hrest, ← hm, String.ofList_toList, ofJson]
  | float x =>
    intro fuel rest hfuel hrest
    obtain ⟨fuel, rfl⟩ := exists_fuel (.float x) hfuel
    obtain ⟨m, hm, -⟩ := Json.floatText_numeral x
    rw [Json.literal, hm, readValue_signed m _ hrest, ← hm, String.ofList_toList, ofJson]
  | str s =>
    intro fuel rest hfuel _
    obtain ⟨fuel, rfl⟩ := exists_fuel (.str s) hfuel
    exact readValue_quote s
  | arr items ih =>
    intro fuel rest hfuel _
    rw [← String.length_toList, Json.toList_literal_arr, List.length_cons, List.length_append,
      List.length_singleton] at hfuel
    obtain ⟨fuel, rfl⟩ := Nat.exists_eq_add_one_of_ne_zero (Nat.ne_zero_of_lt hfuel)
    have hparts : ∀ v ∈ items, v.literal.toList.length ≤ fuel →
        PartOf (readValue fuel) ']' v.literal.toList (ofJson v) := by
      intro v hv hlength
      rw [String.length_toList] at hlength
      exact partOf_value (ih v hv hlength)
    have hread := readSeq_display closes_list toList_literal_ne_nil (by omega) hparts rest
    rw [Json.toList_literal_arr, List.cons_append, List.append_assoc, List.singleton_append, readValue, hread,
      Option.map_some, ofJson, ofItems_eq]
  | obj members ih =>
    intro fuel rest hfuel _
    rw [← String.length_toList, Json.toList_literal_obj, List.length_cons, List.length_append,
      List.length_singleton] at hfuel
    obtain ⟨fuel, rfl⟩ := Nat.exists_eq_add_one_of_ne_zero (Nat.ne_zero_of_lt hfuel)
    have hne : ∀ m, Json.memberChars m ≠ [] := fun m => by simp [Json.memberChars]
    have hparts : ∀ m ∈ members, (Json.memberChars m).length ≤ fuel →
        PartOf (readEntry (readValue fuel)) '\x7d' (Json.memberChars m) (m.1, ofJson m.2) := by
      intro m hm hlength
      rw [Json.memberChars, List.length_append, List.length_cons, List.length_cons, String.length_toList,
        String.length_toList] at hlength
      exact partOf_member (ih m hm (by omega))
    have hread := readSeq_display closes_dict hne (by omega) hparts rest
    rw [Json.toList_literal_obj, List.cons_append, List.append_assoc, List.singleton_append, readValue, hread,
      Option.map_some, ofJson, ofMembers_eq]

theorem read_literal (v : Json) : read v.literal = some (ofJson v) := by
  have hread := readValue_literal v le_rfl Ends.nil
  rw [List.append_nil] at hread
  unfold read
  rw [hread]
  rfl

/-! ### Different values have different literals -/

theorem map_inj_of_mem {α β : Type} {f : α → β} : ∀ {xs ys : List α}, (∀ x ∈ xs, ∀ y, f x = f y → x = y) →
    xs.map f = ys.map f → xs = ys := by
  intro xs
  induction xs with
  | nil =>
    intro ys _ h
    exact (List.map_eq_nil_iff.1 h.symm).symm
  | cons x xs ih =>
    intro ys hinj h
    cases ys with
    | nil => cases h
    | cons y ys =>
      obtain ⟨hhead, htail⟩ := List.cons.inj h
      rw [hinj x List.mem_cons_self y hhead, ih (fun z hz => hinj z (List.mem_cons_of_mem _ hz)) htail]

theorem ofJson_injective : Function.Injective ofJson := by
  intro v
  induction v using Json.nested_induction with
  | null =>
    intro w h
    cases w <;> simp [ofJson] at h ⊢
  | bool b | str s =>
    intro w h
    cases w <;> simp [ofJson] at h ⊢
    exact h
  | int n =>
    intro w h
    cases w <;> simp only [ofJson, reduceCtorEq, number.injEq] at h
    · rw [Int.toString_eq_repr, Int.toString_eq_repr] at h
      rw [Int.repr_injective h]
    · exact absurd h (Json.toString_ne_floatText n _)
  | float x =>
    intro w h
    cases w <;> simp only [ofJson, reduceCtorEq, number.injEq] at h
    · exact absurd h.symm (Json.toString_ne_floatText _ x)
    · rw [Json.floatText_injective h]
  | arr items ih =>
    intro w h
    cases w <;> simp only [ofJson, reduceCtorEq, list.injEq, ofItems_eq] at h
    rw [map_inj_of_mem (fun v hv w => @ih v hv w) h]
  | obj members ih =>
    intro w h
    cases w <;> simp only [ofJson, reduceCtorEq, dict.injEq, ofMembers_eq] at h
    have hinj : ∀ m ∈ members, ∀ m' : String × Json, (m.1, ofJson m.2) = (m'.1, ofJson m'.2) → m = m' := by
      intro m hm m' heq
      obtain ⟨hkey, hvalue⟩ := Prod.mk.inj heq
      exact Prod.ext hkey (ih m hm hvalue)
    rw [map_inj_of_mem hinj h]

/-! ### One line -/

/-- The text has no line end. -/
def OneLine (cs : List Char) : Prop := ∀ c ∈ cs, c ≠ '\n' ∧ c ≠ '\r'

theorem OneLine.append {cs ds : List Char} (hcs : OneLine cs) (hds : OneLine ds) : OneLine (cs ++ ds) :=
  fun c hc => (List.mem_append.1 hc).elim (hcs c) (hds c)

theorem OneLine.cons {c : Char} {cs : List Char} (hc : c ≠ '\n' ∧ c ≠ '\r') (hcs : OneLine cs) : OneLine (c :: cs) :=
  List.forall_mem_cons.2 ⟨hc, hcs⟩

theorem OneLine.intercalate {sep : List Char} (hsep : OneLine sep) {xs : List (List Char)} (hxs : ∀ x ∈ xs, OneLine x) :
    OneLine (sep.intercalate xs) := by
  induction xs with
  | nil => exact fun c hc => absurd hc List.not_mem_nil
  | cons x xs ih =>
    have hx := hxs x List.mem_cons_self
    cases xs with
    | nil =>
      rw [List.intercalate_singleton]
      exact hx
    | cons y ys =>
      rw [List.intercalate_cons_cons]
      exact (hx.append hsep).append (ih fun z hz => hxs z (List.mem_cons_of_mem _ hz))

theorem oneLine_signed (n : Decimal.Numeral) (negative : Bool) : OneLine (n.signed negative) := by
  intro c hc
  have hnumber := isNumberChar_of_mem hc
  constructor <;> rintro rfl <;> exact absurd hnumber (by decide)

theorem oneLine_quote (s : String) : OneLine (Text.quote s).toList := by
  have hchar : ∀ c, OneLine (Text.quoteChar c) := by
    intro c
    unfold Text.quoteChar
    split
    · simp [OneLine]
    · simp [OneLine]
    · simp [OneLine]
    · simp [OneLine]
    · simp [OneLine]
    · next hnewline hreturn _ => simpa [OneLine] using ⟨hnewline, hreturn⟩
  rw [toList_quote]
  refine .cons (by decide) (.append ?_ (by simp [OneLine]))
  intro c hc
  obtain ⟨d, -, hc⟩ := List.mem_flatMap.1 hc
  exact hchar d c hc

theorem oneLine_literal (v : Json) : OneLine v.literal.toList := by
  have hsep : OneLine [',', ' '] := by simp [OneLine]
  induction v using Json.nested_induction with
  | null => simp [OneLine, Json.literal]
  | bool b => cases b <;> simp [OneLine, Json.literal]
  | int n =>
    obtain ⟨m, hm, -⟩ := Json.toString_int_numeral n
    rw [Json.literal, hm]
    exact oneLine_signed m _
  | float x =>
    obtain ⟨m, hm, -⟩ := Json.floatText_numeral x
    rw [Json.literal, hm]
    exact oneLine_signed m _
  | str s => exact oneLine_quote s
  | arr items ih =>
    rw [Json.toList_literal_arr]
    refine .cons (by decide) ((hsep.intercalate ?_).append (by simp [OneLine]))
    intro x hx
    obtain ⟨v, hv, rfl⟩ := List.mem_map.1 hx
    exact ih v hv
  | obj members ih =>
    rw [Json.toList_literal_obj]
    refine .cons (by decide) ((hsep.intercalate ?_).append (by simp [OneLine]))
    intro x hx
    obtain ⟨m, hm, rfl⟩ := List.mem_map.1 hx
    exact (oneLine_quote m.1).append (.cons (by decide) (.cons (by decide) (ih m hm)))

end Literal

/-- **Literals are read back.** The reader takes the whole text of a value's literal and returns the value, the text is
one line, and different values have different literals, as different texts have. -/
theorem Json.literal_round_trip :
    (∀ v : Json, Literal.read v.literal = some (Literal.ofJson v) ∧
      ∀ c ∈ v.literal.toList, c ≠ '\n' ∧ c ≠ '\r') ∧
    Function.Injective Json.literal ∧ Function.Injective Text.quote := by
  refine ⟨fun v => ⟨Literal.read_literal v, Literal.oneLine_literal v⟩, ?_, ?_⟩
  · intro v w h
    have hread := Literal.read_literal v
    rw [h, Literal.read_literal w] at hread
    exact (Literal.ofJson_injective (Option.some.inj hread)).symm
  · intro s t h
    have hs := @Literal.readValue_quote 0 [] s
    rw [h, Literal.readValue_quote t] at hs
    cases hs
    rfl

end ClientGen
