import ClientGen.Proofs.TemplateOffsets

/-!
# How a template uses its arguments

Before anything is written the placeholders are counted. So each of them has an argument, and each argument has a
placeholder. A block is used up when it is run, and cannot be run again.

* `countP_parts`: how many placeholders name an argument.
* `Draft.putParts_ok`: if that succeeds, no block was run twice.
* `Draft.expand_uses`: all this of templates.
-/

namespace ClientGen

namespace Template

/-! ### The number of arguments -/

/-- **The placeholders fit the number of arguments**: they take the arguments in turn and are as many, or they name
positions and these are all from one to the number. -/
def FitsCount (ts : List Token) (n : Nat) : Prop :=
  positions ts = [] ∧ relativeCount ts = n ∨
    relativeCount ts = 0 ∧ positions ts ≠ [] ∧ ∀ p, p ∈ positions ts ↔ 1 ≤ p ∧ p ≤ n

theorem coversAll_iff {ps : List Nat} {n : Nat} : coversAll ps n = true ↔ ∀ p, p ∈ ps ↔ 1 ≤ p ∧ p ≤ n := by
  simp only [coversAll, Bool.and_eq_true, List.all_eq_true, decide_eq_true_eq, List.mem_range, List.contains_iff_mem]
  constructor
  · rintro ⟨hrange, hall⟩ p
    refine ⟨hrange p, fun hp => ?_⟩
    obtain ⟨i, rfl⟩ := Nat.exists_eq_add_of_le' hp.1
    exact hall i hp.2
  · intro h
    exact ⟨fun p hp => (h p).1 hp, fun i hi => (h (i + 1)).2 ⟨Nat.le_add_left 1 i, hi⟩⟩

variable {template : String} {n : Nat} {ts : List Token}

theorem checkArity_eq_ok_iff : checkArity template ts n = .ok () ↔ FitsCount ts n := by
  unfold checkArity FitsCount
  dsimp only
  cases hps : positions ts with
  | nil => by_cases hcount : relativeCount ts = n <;> simp [hcount]
  | cons p ps =>
    rw [← hps]
    have hne : positions ts ≠ [] := hps ▸ List.cons_ne_nil p ps
    have hempty : (positions ts).isEmpty = false := List.isEmpty_eq_false_iff.2 hne
    by_cases hcount : relativeCount ts = 0
    · by_cases hcovers : coversAll (positions ts) n = true
      · simp [hcount, hempty, hne, hcovers, coversAll_iff.1 hcovers]
      · simp [hcount, hempty, hne, hcovers, ← coversAll_iff]
    · have hpos : relativeCount ts > 0 := Nat.pos_of_ne_zero hcount
      simp [hempty, hpos, hcount, hne]

/-! ### Parts -/

/-- What is written for a token: a text, the value of a name, or one of `n` arguments. -/
inductive Part (n : Nat) where
  | text (s : String)
  | named (name : String) (format : Format)
  | argument (i : Fin n) (format : Format)

/-- Is the argument written for the part? -/
def Part.names (i : Fin n) : Part n → Bool
  | .argument j _ => j == i
  | _ => false

theorem Part.names_argument {i j : Fin n} {f : Format} : Part.names i (.argument j f) = true ↔ j.val = i.val := by
  simp [Part.names, Fin.ext_iff]

/-- The parts that tokens stand for, if there are enough arguments; `next` have been taken in turn. -/
def parts? (n : Nat) : Nat → List Token → Option (List (Part n))
  | _, [] => some []
  | next, .text s :: rest => (parts? n next rest).map (.text s :: ·)
  | next, .dollar :: rest => (parts? n next rest).map (.text "$" :: ·)
  | next, .named name f :: rest => (parts? n next rest).map (.named name f :: ·)
  | next, .argument .next f :: rest =>
    if h : next < n then (parts? n (next + 1) rest).map (.argument ⟨next, h⟩ f :: ·) else none
  | next, .argument (.position p) f :: rest =>
    if h : p - 1 < n then (parts? n next rest).map (.argument ⟨p - 1, h⟩ f :: ·) else none

/-- Every placeholder has an argument if those in turn are not too many and the positions are in range. -/
theorem parts?_isSome : ∀ {ts : List Token} {next : Nat}, next + relativeCount ts ≤ n →
    (∀ p ∈ positions ts, 1 ≤ p ∧ p ≤ n) → ∃ parts, parts? n next ts = some parts := by
  intro ts
  induction ts with
  | nil => exact fun _ _ => ⟨[], rfl⟩
  | cons t ts ih =>
    intro next hcount hrange
    cases t with
    | text s =>
      obtain ⟨parts, hparts⟩ := ih hcount hrange
      exact ⟨.text s :: parts, by rw [parts?, hparts]; rfl⟩
    | dollar =>
      obtain ⟨parts, hparts⟩ := ih hcount hrange
      exact ⟨.text "$" :: parts, by rw [parts?, hparts]; rfl⟩
    | named name f =>
      obtain ⟨parts, hparts⟩ := ih hcount hrange
      exact ⟨.named name f :: parts, by rw [parts?, hparts]; rfl⟩
    | argument index f =>
      cases index with
      | next =>
        have hmore : relativeCount (.argument .next f :: ts) = relativeCount ts + 1 := List.countP_cons_of_pos rfl
        rw [hmore] at hcount
        have hnext : next < n := by omega
        obtain ⟨parts, hparts⟩ := @ih (next + 1) (by omega) hrange
        exact ⟨.argument ⟨next, hnext⟩ f :: parts, by rw [parts?, dif_pos hnext, hparts]; rfl⟩
      | position p =>
        obtain ⟨hp, hrange⟩ := List.forall_mem_cons.1 hrange
        have hpos : p - 1 < n := by omega
        obtain ⟨parts, hparts⟩ := ih hcount hrange
        exact ⟨.argument ⟨p - 1, hpos⟩ f :: parts, by rw [parts?, dif_pos hpos, hparts]; rfl⟩

theorem parts?_of_fits (h : FitsCount ts n) : ∃ parts, parts? n 0 ts = some parts := by
  rcases h with ⟨hpositions, hcount⟩ | ⟨hcount, -, hrange⟩
  · refine parts?_isSome (by omega) ?_
    rw [hpositions]
    exact fun p hp => absurd hp List.not_mem_nil
  · exact parts?_isSome (by omega) fun p hp => (hrange p).1 hp

/-- How many parts name an argument: one if it is among those taken in turn, and one for each time that its position is
given. -/
theorem countP_parts : ∀ {ts : List Token} {next : Nat} {parts : List (Part n)}, parts? n next ts = some parts →
    (∀ p ∈ positions ts, 1 ≤ p) → ∀ i : Fin n, parts.countP (Part.names i) =
      (if next ≤ i.val ∧ i.val < next + relativeCount ts then 1 else 0) + (positions ts).count (i.val + 1) := by
  intro ts
  induction ts with
  | nil =>
    rintro next parts ⟨⟩ - i
    rw [if_neg]
    · rfl
    · show ¬ (next ≤ i.val ∧ i.val < next)
      omega
  | cons t ts ih =>
    intro next parts h hpositive i
    cases t with
    | text s | dollar | named name f =>
      obtain ⟨rest, hrest, rfl⟩ := Option.map_eq_some_iff.1 h
      exact ih hrest hpositive i
    | argument index f =>
      cases index with
      | next =>
        rw [parts?] at h
        split at h
        · next hnext =>
          obtain ⟨rest, hrest, rfl⟩ := Option.map_eq_some_iff.1 h
          -- one argument is taken, and those taken in turn begin one later
          have hmore : relativeCount (.argument .next f :: ts) = relativeCount ts + 1 := List.countP_cons_of_pos rfl
          have hsame : positions (.argument .next f :: ts) = positions ts := rfl
          rw [hsame] at hpositive ⊢
          rw [hmore, List.countP_cons, ih hrest hpositive i]
          simp only [Part.names_argument]
          split_ifs <;> omega
        · cases h
      | position p =>
        rw [parts?] at h
        split at h
        · next hp =>
          obtain ⟨rest, hrest, rfl⟩ := Option.map_eq_some_iff.1 h
          have hmore : positions (.argument (.position p) f :: ts) = p :: positions ts := rfl
          have hsame : relativeCount (.argument (.position p) f :: ts) = relativeCount ts := rfl
          rw [hmore] at hpositive ⊢
          obtain ⟨hp, hpositive⟩ := List.forall_mem_cons.1 hpositive
          rw [hsame, List.countP_cons, List.count_cons, ih hrest hpositive i]
          simp only [Part.names_argument, beq_iff_eq]
          split_ifs <;> omega
        · cases h

theorem countP_of_fits {parts : List (Part n)} (h : FitsCount ts n) (hparts : parts? n 0 ts = some parts) (i : Fin n) :
    parts.countP (Part.names i) = if positions ts = [] then 1 else (positions ts).count (i.val + 1) := by
  rcases h with ⟨hpositions, hcount⟩ | ⟨hcount, hne, hrange⟩
  · have hnone : ∀ p ∈ positions ts, 1 ≤ p := by
      rw [hpositions]
      exact fun p hp => absurd hp List.not_mem_nil
    rw [countP_parts hparts hnone, if_pos hpositions, hpositions, hcount, if_pos ⟨Nat.zero_le _, by omega⟩]
    rfl
  · rw [countP_parts hparts fun p hp => ((hrange p).1 hp).1, if_neg hne, hcount, if_neg (by omega), Nat.zero_add]

theorem exists_part_of_fits {parts : List (Part n)} (h : FitsCount ts n) (hparts : parts? n 0 ts = some parts)
    (i : Fin n) : ∃ f, .argument i f ∈ parts := by
  have hpos : 0 < parts.countP (Part.names i) := by
    rw [countP_of_fits h hparts]
    split
    · exact Nat.one_pos
    · next hne =>
      rcases h with ⟨hpositions, -⟩ | ⟨-, -, hrange⟩
      · exact absurd hpositions hne
      · exact List.count_pos_iff.2 ((hrange _).2 ⟨Nat.le_add_left 1 i, i.isLt⟩)
  obtain ⟨part, hmem, hnames⟩ := List.countP_pos_iff.1 hpos
  cases part with
  | argument j f =>
    cases eq_of_beq hnames
    exact ⟨f, hmem⟩
  | text s => cases hnames
  | named name f => cases hnames

end Template

namespace Draft

open Template

/-! ### Writing parts -/

/-- What is left of a slot that has been written. -/
def Slot.used : Slot → Slot
  | .block _ => .spent
  | slot => slot

/-- Writes a part with the given arguments. -/
def putPart (template : String) (slots : Fin n → Slot) : Part n → DraftM Unit
  | .text s => modify fun d => d.put s
  | .named name f => putNamed template name f
  | .argument i f => putSlot template (slots i) f

/-- Writes parts one after another. What is used up is not there any more for those that follow. -/
def putParts (template : String) : (Fin n → Slot) → List (Part n) → DraftM Unit
  | _, [] => pure ()
  | slots, part :: rest => do
    putPart template slots part
    putParts template (fun i => if part.names i then (slots i).used else slots i) rest

variable {template : String} {n : Nat}

theorem getElem?_useSlot (slots : List Slot) (i j : Nat) :
    (useSlot slots i)[j]? = if i = j then slots[j]?.map Slot.used else slots[j]? := by
  unfold useSlot
  split
  · next act hact =>
    rw [List.getElem?_set]
    by_cases hij : i = j
    · subst hij
      have hlt : i < slots.length := (List.getElem?_eq_some_iff.1 hact).1
      rw [if_pos rfl, if_pos rfl, if_pos hlt, hact]
      rfl
    · rw [if_neg hij, if_neg hij]
  · next hslot =>
    by_cases hij : i = j
    · subst hij
      rw [if_pos rfl]
      cases hi : slots[i]? with
      | none => rfl
      | some slot =>
        cases slot with
        | block act => exact absurd hi (hslot act)
        | _ => rfl
    · rw [if_neg hij]

/-- **Writing tokens comes to writing their parts.** -/
theorem putTokens_eq : ∀ {ts : List Token} {next : Nat} {slots : List Slot} {args : Fin n → Slot}
    {parts : List (Part n)}, (∀ i : Fin n, slots[i.val]? = some (args i)) → parts? n next ts = some parts →
    putTokens template next slots ts = putParts template args parts := by
  intro ts
  induction ts with
  | nil =>
    rintro next slots args parts - ⟨⟩
    rfl
  | cons t ts ih =>
    intro next slots args parts hargs h
    -- a part that names no argument leaves all of them as they are
    have hplain : ∀ {part : Part n} {rest : List (Part n)}, (∀ i, part.names i = false) → parts? n next ts = some rest →
        (putPart template args part >>= fun _ => putTokens template next slots ts) =
          putParts template args (part :: rest) := by
      intro part rest hpart hrest
      rw [putParts]
      refine congrArg (putPart template args part >>= ·) (funext fun _ => ih (fun i => ?_) hrest)
      rw [hpart i]
      exact hargs i
    -- an argument is the one in its slot, and both are used up
    have hargument : ∀ {i : Fin n} {next' : Nat} {f : Format} {rest : List (Part n)}, parts? n next' ts = some rest →
        (putSlot template (slots.getD i .spent) f >>= fun _ => putTokens template next' (useSlot slots i) ts) =
          putParts template args (.argument i f :: rest) := by
      intro i next' f rest hrest
      have hslot : slots.getD i .spent = args i := by
        rw [List.getD_eq_getElem?_getD, hargs i]
        rfl
      rw [hslot, putParts]
      refine congrArg (putSlot template (args i) f >>= ·) (funext fun _ => ih (fun j => ?_) hrest)
      rw [getElem?_useSlot, hargs j, Option.map_some, ← apply_ite some]
      exact congrArg some (if_congr Part.names_argument.symm rfl rfl)
    cases t with
    | text s =>
      obtain ⟨rest, hrest, rfl⟩ := Option.map_eq_some_iff.1 h
      exact @hplain (.text s) rest (fun _ => rfl) hrest
    | dollar =>
      obtain ⟨rest, hrest, rfl⟩ := Option.map_eq_some_iff.1 h
      exact @hplain (.text "$") rest (fun _ => rfl) hrest
    | named name f =>
      obtain ⟨rest, hrest, rfl⟩ := Option.map_eq_some_iff.1 h
      exact @hplain (.named name f) rest (fun _ => rfl) hrest
    | argument index f =>
      cases index with
      | next =>
        rw [parts?] at h
        split at h
        · next hnext =>
          obtain ⟨rest, hrest, rfl⟩ := Option.map_eq_some_iff.1 h
          exact @hargument ⟨next, hnext⟩ _ f _ hrest
        · cases h
      | position p =>
        rw [parts?] at h
        split at h
        · next hp =>
          obtain ⟨rest, hrest, rfl⟩ := Option.map_eq_some_iff.1 h
          exact @hargument ⟨p - 1, hp⟩ _ f _ hrest
        · cases h

theorem putSlot_spent (f : Format) (d d' : Draft) : (putSlot template .spent f).run d ≠ (.ok (), d') := by
  intro h
  cases f <;> cases h

theorem putSlot_block {act : DraftM Unit} {f : Format} {d d' : Draft}
    (h : (putSlot template (.block act) f).run d = (.ok (), d')) : f = .code := by
  cases f with
  | code => rfl
  | _ => cases h

theorem forM_putPart_congr {slots slots' : Fin n → Slot} {parts : List (Part n)}
    (h : ∀ part ∈ parts, ∀ i, part.names i = true → slots i = slots' i) :
    parts.forM (putPart template slots) = parts.forM (putPart template slots') := by
  induction parts with
  | nil => rfl
  | cons part rest ih =>
    have hpart : putPart template slots part = putPart template slots' part := by
      cases part with
      | argument i f =>
        show putSlot template (slots i) f = putSlot template (slots' i) f
        rw [h _ List.mem_cons_self i (Part.names_argument.2 rfl)]
      | _ => rfl
    show (putPart template slots part >>= fun _ => rest.forM (putPart template slots)) =
      putPart template slots' part >>= fun _ => rest.forM (putPart template slots')
    rw [hpart, ih fun q hq => h q (List.mem_cons_of_mem _ hq)]

/-- **What has been written if no part failed.** Each part was written once with its own argument, none named an
argument that was used up before, and a block was named once at most, as code. -/
theorem putParts_ok : ∀ {parts : List (Part n)} {slots : Fin n → Slot} {d d' : Draft},
    (putParts template slots parts).run d = (.ok (), d') →
    (parts.forM (putPart template slots)).run d = (.ok (), d') ∧
    (∀ i, slots i = .spent → ∀ part ∈ parts, part.names i = false) ∧
    ∀ i act, slots i = .block act → parts.filter (Part.names i) ≠ [] →
      parts.filter (Part.names i) = [.argument i .code] := by
  intro parts
  induction parts with
  | nil =>
    intro slots d d' h
    exact ⟨h, fun _ _ part hpart => absurd hpart List.not_mem_nil, fun _ _ _ hne => absurd rfl hne⟩
  | cons part rest ih =>
    intro slots d d' h
    obtain ⟨⟨⟩, d₁, hpart, hrest⟩ := run_bind_ok.1 h
    obtain ⟨hrun, hspent, hblock⟩ := ih hrest
    -- a part that names an argument was written with it
    have hslot : ∀ i, part.names i = true →
        ∃ f, part = .argument i f ∧ (putSlot template (slots i) f).run d = (.ok (), d₁) := by
      intro i hi
      cases part with
      | argument j f =>
        cases eq_of_beq hi
        exact ⟨f, rfl, hpart⟩
      | text s => cases hi
      | named name f => cases hi
    refine ⟨?_, ?_, ?_⟩
    · have hsame : ∀ q ∈ rest, ∀ i, q.names i = true →
          (if part.names i then (slots i).used else slots i) = slots i := by
        intro q hq i hi
        split
        · next hnames =>
          cases hs : slots i with
          | block act =>
            -- a block that is used up is not named again
            have hnot := hspent i (by rw [if_pos hnames, hs]; rfl) q hq
            rw [hi] at hnot
            cases hnot
          | _ => rfl
        · rfl
      rw [forM_putPart_congr hsame] at hrun
      exact run_bind_ok.2 ⟨(), d₁, hpart, hrun⟩
    · intro i hi q hq
      rcases List.mem_cons.1 hq with rfl | hq
      · cases hnames : q.names i with
        | false => rfl
        | true =>
          obtain ⟨f, -, hput⟩ := hslot i hnames
          rw [hi] at hput
          exact absurd hput (putSlot_spent f d d₁)
      · refine hspent i ?_ q hq
        rw [hi]
        exact ite_self _
    · intro i act hi hne
      cases hnames : part.names i with
      | false =>
        rw [List.filter_cons_of_neg (by simp [hnames])] at hne ⊢
        exact hblock i act (by rw [hnames]; exact hi) hne
      | true =>
        obtain ⟨f, rfl, hput⟩ := hslot i hnames
        rw [hi] at hput
        cases putSlot_block hput
        have hnone : rest.filter (Part.names i) = [] := by
          rw [List.filter_eq_nil_iff]
          intro q hq
          rw [hspent i (by rw [if_pos hnames, hi]; rfl) q hq]
          exact Bool.false_ne_true
        rw [List.filter_cons_of_pos hnames, hnone]

/-! ### Templates -/

variable {slots : List Slot} {ts : List Token}

theorem expand_of_fits (hparse : parse template = .ok ts) (hfits : FitsCount ts slots.length) :
    expand template slots = putTokens template 0 slots ts := by
  unfold expand
  rw [hparse]
  dsimp only [bind, Except.bind]
  rw [checkArity_eq_ok_iff.2 hfits]
  rfl

theorem expand_of_not_fits (hparse : parse template = .ok ts) (hfits : ¬ FitsCount ts slots.length) :
    ∃ e, ∀ d, (expand template slots).run d = (.error (.template e), d) := by
  cases harity : checkArity template ts slots.length with
  | ok u => exact absurd (checkArity_eq_ok_iff.1 harity) hfits
  | error e =>
    refine ⟨e, fun d => ?_⟩
    unfold expand
    rw [hparse]
    dsimp only [bind, Except.bind]
    rw [harity]
    rfl

/-- **How a template uses its arguments.**
1. It can be read by byte offsets: no cut is inside of a character.
2. If it cannot be read, or its placeholders do not fit the number of arguments, it is refused as a template, and the
   draft is left as it was.
3. Otherwise every placeholder has an argument in range, and writing the template is writing these parts. If that
   succeeds, each part was written once, in order and with its own argument. Every argument was written, as often as
   placeholders name it, and a block once, as code. -/
theorem expand_uses (template : String) (slots : List Slot) :
    parseAt template = some (parse template) ∧
    (∀ e, parse template = .error e → ∀ d, (expand template slots).run d = (.error (.template e), d)) ∧
    (∀ ts, parse template = .ok ts → ¬ FitsCount ts slots.length →
      ∃ e, ∀ d, (expand template slots).run d = (.error (.template e), d)) ∧
    ∀ ts, parse template = .ok ts → FitsCount ts slots.length →
      ∃ parts, parts? slots.length 0 ts = some parts ∧ expand template slots = putParts template slots.get parts ∧
        ∀ d d', (expand template slots).run d = (.ok (), d') →
          (parts.forM (putPart template slots.get)).run d = (.ok (), d') ∧
          (∀ i, ∃ f, .argument i f ∈ parts) ∧
          (∀ i, parts.countP (Part.names i) = if positions ts = [] then 1 else (positions ts).count (i.val + 1)) ∧
          ∀ i act, slots.get i = .block act → parts.filter (Part.names i) = [.argument i .code] := by
  refine ⟨parseAt_eq template, fun e h => expand_of_parse_error h slots, fun ts => expand_of_not_fits, ?_⟩
  intro ts hparse hfits
  obtain ⟨parts, hparts⟩ := parts?_of_fits hfits
  have heq : expand template slots = putParts template slots.get parts := by
    rw [expand_of_fits hparse hfits]
    exact putTokens_eq (fun i => List.getElem?_eq_getElem i.isLt) hparts
  refine ⟨parts, hparts, heq, fun d d' hrun => ?_⟩
  rw [heq] at hrun
  obtain ⟨hforM, -, hblock⟩ := putParts_ok hrun
  refine ⟨hforM, exists_part_of_fits hfits hparts, countP_of_fits hfits hparts, fun i act hact => ?_⟩
  -- the block is named, and at most once
  obtain ⟨f, hf⟩ := exists_part_of_fits hfits hparts i
  have hmem : .argument i f ∈ parts.filter (Part.names i) := List.mem_filter.2 ⟨hf, Part.names_argument.2 rfl⟩
  exact hblock i act hact (List.ne_nil_of_mem hmem)

/-- A template that writes its first argument on both sides of its second. -/
def framed : List Token :=
  [.argument (.position 1) .literal, .argument (.position 2) .code, .argument (.position 1) .string]

/-- A text, and a block that writes another. -/
def framedSlots : List Slot :=
  [.literal "x", .block (modify fun d => d.put "y")]

/-- The text is written twice, the block once. -/
theorem expand_uses_framed : ∀ d, ∃ d' parts,
    (expand "$1L$2C$1S" framedSlots).run d = (.ok (), d') ∧
    parts? 2 0 framed = some parts ∧ parts.countP (Part.names 0) = 2 ∧
    parts.filter (Part.names 1) = [.argument 1 .code] := by
  intro d
  have hparse : parse "$1L$2C$1S" = .ok framed := by with_unfolding_all rfl
  have harity : checkArity "$1L$2C$1S" framed framedSlots.length = .ok () := by decide
  have hfits : FitsCount framed framedSlots.length := checkArity_eq_ok_iff.1 harity
  obtain ⟨-, -, -, huses⟩ := expand_uses "$1L$2C$1S" framedSlots
  obtain ⟨parts, hparts, -, hok⟩ := huses framed hparse hfits
  have hrun : ∃ d', (expand "$1L$2C$1S" framedSlots).run d = (.ok (), d') := by
    rw [expand_of_fits hparse hfits]
    exact ⟨_, rfl⟩
  obtain ⟨d', hrun⟩ := hrun
  obtain ⟨-, -, hcount, hblock⟩ := hok d d' hrun
  exact ⟨d', parts, hrun, hparts, (hcount ⟨0, by decide⟩).trans (by decide), hblock ⟨1, by decide⟩ _ rfl⟩

end Draft

end ClientGen
