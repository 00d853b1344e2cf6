import ClientGen.Proofs.ScopedState

/-!
# Scopes begin within the text

A scope remembers where its text begins, and a replacement cuts the text there. Text is also taken away where a
block drops its last line end, so a scope that is opened in the block and outlives it may be left beginning past
the end of the text.

* `Script.scopes_in_range`: scopes stay in range if the code in blocks and the scripts of interceptors are
  balanced; all other steps may open and close scopes as they like.
* `Script.block_leaves_pastEnd`: a block that is not balanced can leave a scope out of range.
-/

namespace ClientGen

/-- How many scopes are open beyond those at the start. There is none if one of those has been closed. -/
abbrev Level := Option Nat

namespace Level

def up (l : Level) : Level := l.map (· + 1)

def down : Level → Level
  | some (n + 1) => some n
  | _ => none

end Level

mutual

/-- The level after a step that starts at a level. -/
def Step.level : Level → Step → Level
  | l, .block _ _ body => Step.levelAll l body
  | l, .define _ _ _ _ body => Step.levelAll l body
  | l, .push _ => l.up
  | l, .pop => l.down
  | l, .scope _ body => (Step.levelAll l.up body).down
  | l, _ => l

def Step.levelAll : Level → List Step → Level
  | l, [] => l
  | l, step :: rest => Step.levelAll (Step.level l step) rest

end

/-- The script closes the scopes that it opens, and no others. -/
def Script.Balanced (script : Script) : Prop := Step.levelAll (some 0) script = some 0

instance (script : Script) : Decidable script.Balanced :=
  inferInstanceAs (Decidable (Step.levelAll (some 0) script = some 0))

/-- The code that is an argument of a step. -/
def Arg.codes : List Arg → List Script
  | [] => []
  | .code body :: rest => body :: Arg.codes rest
  | _ :: rest => Arg.codes rest

/-- The code among the arguments of a step is balanced. A step that fails does not say that a scope was out of
range. -/
def Step.Sound : Step → Prop
  | .line _ args => ∀ body ∈ Arg.codes args, Script.Balanced body
  | .inline _ args => ∀ body ∈ Arg.codes args, Script.Balanced body
  | .block _ args _ => ∀ body ∈ Arg.codes args, Script.Balanced body
  | .define _ _ _ args _ => ∀ body ∈ Arg.codes args, Script.Balanced body
  | .fail e => e ≠ .draft .pastEnd
  | _ => True

instance Step.decidableSound : (step : Step) → Decidable step.Sound
  | .line _ args | .inline _ args | .block _ args _ | .define _ _ _ args _ =>
    inferInstanceAs (Decidable (∀ body ∈ Arg.codes args, Script.Balanced body))
  | .fail e => inferInstanceAs (Decidable (e ≠ .draft .pastEnd))
  | .newline | .indent | .dedent | .docs _ | .importSymbol _ | .importModule _ | .dependency _ | .put _ _ | .push _
  | .pop | .scope _ _ => .isTrue trivial

/-- All parts of the script are sound. -/
def Script.Sound (script : Script) : Prop := ∀ part ∈ Step.partsAll script, part.Sound

instance (script : Script) : Decidable script.Sound :=
  inferInstanceAs (Decidable (∀ part ∈ Step.partsAll script, part.Sound))

namespace Draft

/-- Where the open scopes begin, innermost first. -/
def starts (d : Draft) : List Nat := d.scopes.map Scope.start

/-- All scopes begin within the text, and none before one that is further out. -/
structure InRange (d : Draft) : Prop where
  le : ∀ start ∈ d.starts, start ≤ d.text.size
  ordered : d.starts.Pairwise (· ≥ ·)

/-- The text has grown, and the same scopes are open. -/
structure Grows (d d' : Draft) : Prop where
  starts : d'.starts = d.starts
  size : d.text.size ≤ d'.text.size

/-- Since the first draft, scopes have been opened that begin at the given offsets, and no text that was there
has been taken away. -/
structure Rises (opened : List Nat) (e d : Draft) : Prop where
  starts : d.starts = opened ++ e.starts
  size : e.text.size ≤ d.text.size
  le : ∀ start ∈ opened, e.text.size ≤ start ∧ start ≤ d.text.size
  ordered : opened.Pairwise (· ≥ ·)

/-- The draft is at the level, counted from the first draft. Below the scopes of that draft it is only known to
be in range. -/
def At (l : Level) (e d : Draft) : Prop :=
  match l with
  | some n => ∃ opened, opened.length = n ∧ Rises opened e d
  | none => d.InRange

variable {d d' e : Draft} {l l' l'' : Level} {opened : List Nat} {start : Nat}

theorem Rises.inRange (h : Rises opened e d) (he : e.InRange) : d.InRange := by
  have hsize := h.size
  constructor
  · intro s hs
    rw [h.starts] at hs
    rcases List.mem_append.1 hs with hs | hs
    · exact (h.le s hs).2
    · have := he.le s hs
      omega
  · rw [h.starts, List.pairwise_append]
    refine ⟨h.ordered, he.ordered, ?_⟩
    intro a ha b hb
    have hab := (h.le a ha).1
    have hbe := he.le b hb
    show b ≤ a
    omega

theorem At.inRange (h : At l e d) (he : e.InRange) : d.InRange := by
  cases l with
  | none => exact h
  | some n =>
    obtain ⟨opened, -, hrises⟩ := h
    exact hrises.inRange he

theorem at_zero_iff : At (some 0) e d ↔ Grows e d := by
  constructor
  · rintro ⟨opened, hlength, h⟩
    obtain rfl := List.eq_nil_of_length_eq_zero hlength
    exact ⟨h.starts, h.size⟩
  · intro h
    exact ⟨[], rfl, h.starts, h.size, by simp, List.Pairwise.nil⟩

theorem Grows.refl (d : Draft) : Grows d d := ⟨rfl, Nat.le_refl _⟩

theorem InRange.grow (hd : d.InRange) (h : Grows d d') : d'.InRange := (at_zero_iff.2 h).inRange hd

theorem At.grow (hl : At l e d) (h : Grows d d') : At l e d' := by
  cases l with
  | none => exact InRange.grow hl h
  | some n =>
    obtain ⟨opened, hlength, hrises⟩ := hl
    have hsize := h.size
    refine ⟨opened, hlength, h.starts.trans hrises.starts, Nat.le_trans hrises.size hsize, ?_, hrises.ordered⟩
    intro s hs
    have := hrises.le s hs
    omega

theorem At.push (hl : At l e d) (he : e.InRange) (hstarts : d'.starts = start :: d.starts)
    (hstart : d.text.size ≤ start) (hend : start ≤ d'.text.size) : At l.up e d' := by
  have hd := hl.inRange he
  have hbelow : ∀ s ∈ d.starts, s ≤ start := fun s hs => Nat.le_trans (hd.le s hs) hstart
  cases l with
  | none =>
    constructor
    · intro s hs
      rw [hstarts] at hs
      rcases List.mem_cons.1 hs with rfl | hs
      · exact hend
      · exact Nat.le_trans (hbelow s hs) hend
    · rw [hstarts]
      exact List.pairwise_cons.2 ⟨hbelow, hd.ordered⟩
  | some n =>
    obtain ⟨opened, hlength, h⟩ := hl
    have hsize := h.size
    refine ⟨start :: opened, by rw [List.length_cons, hlength], ?_, by omega, ?_, ?_⟩
    · rw [hstarts, h.starts, List.cons_append]
    · intro s hs
      rcases List.mem_cons.1 hs with rfl | hs
      · omega
      · have := h.le s hs
        omega
    · refine List.pairwise_cons.2 ⟨?_, h.ordered⟩
      intro s hs
      exact Nat.le_trans (h.le s hs).2 hstart

theorem InRange.pop (hd : d.InRange) {rest : List Nat} (hstarts : d.starts = start :: rest)
    (hrest : d'.starts = rest) (hend : start ≤ d'.text.size) : d'.InRange := by
  have hordered := hd.ordered
  rw [hstarts, List.pairwise_cons] at hordered
  constructor
  · intro s hs
    rw [hrest] at hs
    exact Nat.le_trans (hordered.1 s hs) hend
  · rw [hrest]
    exact hordered.2

/-- The innermost scope is closed while the text still reaches its beginning. -/
theorem At.pop (hl : At l e d) (he : e.InRange) {rest : List Nat} (hstarts : d.starts = start :: rest)
    (hrest : d'.starts = rest) (hend : start ≤ d'.text.size) : At l.down e d' := by
  have hd : d'.InRange := (hl.inRange he).pop hstarts hrest hend
  cases l with
  | none => exact hd
  | some n =>
    cases n with
    | zero => exact hd
    | succ n =>
      obtain ⟨opened, hlength, h⟩ := hl
      cases opened with
      | nil => cases hlength
      | cons top opened =>
        have heq := h.starts
        rw [hstarts, List.cons_append] at heq
        cases heq
        obtain ⟨htop, hopened⟩ := List.pairwise_cons.1 h.ordered
        have hstart := (h.le start List.mem_cons_self).1
        refine ⟨opened, by simpa using hlength, hrest, by omega, ?_, hopened⟩
        intro s hs
        have hlow := (h.le s (List.mem_cons_of_mem _ hs)).1
        have hhigh : s ≤ start := htop s hs
        omega

theorem InRange.closing (hd : d.InRange) {rest : List Nat} (hstarts : d.starts = start :: rest)
    (hsame : d'.starts = d.starts) (hend : start ≤ d'.text.size) : d'.InRange := by
  have hordered := hd.ordered
  rw [hstarts, List.pairwise_cons] at hordered
  constructor
  · intro s hs
    rw [hsame, hstarts] at hs
    rcases List.mem_cons.1 hs with rfl | hs
    · exact hend
    · exact Nat.le_trans (hordered.1 s hs) hend
  · rw [hsame]
    exact hd.ordered

theorem closeScope_starts (d : Draft) : d.closeScope.starts = d.starts.tail := by
  unfold closeScope starts
  split
  · rename_i hscopes
    rw [hscopes]
    rfl
  · rename_i hscopes
    rw [hscopes]
    rfl

theorem closeScope_size (d : Draft) : d.closeScope.text.size = d.text.size := by
  unfold closeScope
  split <;> rfl

theorem InRange.closeScope (hd : d.InRange) : d.closeScope.InRange := by
  constructor
  · intro s hs
    rw [closeScope_starts] at hs
    rw [closeScope_size]
    exact hd.le s (List.mem_of_mem_tail hs)
  · rw [closeScope_starts]
    exact hd.ordered.tail

theorem putValue_starts (d : Draft) (key : String) (value : ContextValue) :
    (d.putValue key value).starts = d.starts := by
  unfold putValue starts
  split
  · rename_i h
    rw [h]
  · rename_i h
    rw [h]
    rfl

theorem size_put_le (d : Draft) (s : String) : d.text.size ≤ (d.put s).text.size := by
  rw [put_text, ByteArray.size_append]
  omega

theorem le_size_truncate (h : start ≤ d.text.size) : start ≤ (d.truncate start).text.size := by
  unfold truncate
  rw [ByteArray.size_extract]
  omega

theorem le_size_dropLineEnd (h : start ≤ d.text.size) : start ≤ (dropLineEnd start d).text.size := by
  unfold dropLineEnd
  dsimp only
  split
  · rename_i hlast
    rw [Bool.and_eq_true, decide_eq_true_eq] at hlast
    unfold truncate
    rw [ByteArray.size_extract]
    omega
  · exact h

theorem Grows.dropLineEnd (h : Grows d d') : Grows d (Draft.dropLineEnd d.text.size d').resetLine := by
  obtain ⟨text, hframe⟩ := dropLineEnd_frame d.text.size d'
  refine ⟨?_, le_size_dropLineEnd h.size⟩
  rw [hframe]
  exact h.starts

theorem grows_law : Law Grows where
  refl := Grows.refl
  trans h h' := ⟨h'.starts.trans h.starts, Nat.le_trans h.size h'.size⟩
  put d s := by
    obtain ⟨text, atLineStart, column, h⟩ := put_frame d s
    refine ⟨?_, size_put_le d s⟩
    rw [h]
    rfl
  record d _ _ := ⟨rfl, Nat.le_refl _⟩
  putValue d key value := by
    refine ⟨putValue_starts d key value, ?_⟩
    unfold putValue
    split <;> exact Nat.le_refl _
  indent d _ := ⟨rfl, Nat.le_refl _⟩
  block := by
    intro act hact d
    obtain ⟨left, hleft, hends⟩ := runBlock_leaves act d
    have hgrows : Grows d left := by
      have h := hact { d with blockIndent := d.blockIndent + d.column }
      rw [hleft]
      exact ⟨h.starts, h.size⟩
    rcases hends with h | h
    · rw [h]
      exact hgrows
    · rw [h]
      exact hgrows.dropLineEnd

/-! ### Changes that keep scopes in range -/

/-- How a change may fail: scopes are in range, and it is not because one was found out of range. -/
def FailsInRange (err : Error) (d : Draft) : Prop := err ≠ .draft .pastEnd ∧ d.InRange

/-- The change keeps scopes in range, and leads from one level to another unless it fails. -/
def Moves (l l' : Level) (act : DraftM Unit) : Prop :=
  ∀ e, e.InRange → Triple (At l e) act (fun _ => At l' e) FailsInRange

variable {act x y : DraftM Unit}

theorem Moves.seq (hx : Moves l l' x) (hy : Moves l' l'' y) : Moves l l'' (x >>= fun _ => y) :=
  fun e he => (hx e he).bind fun _ => hy e he

theorem Moves.stay (h : Moves (some 0) (some 0) act) (l : Level) : Moves l l act := by
  intro e he d hd
  have hrange := hd.inRange he
  have hact := h d hrange d (at_zero_iff.2 (.refl d))
  cases hr : act.run d with
  | mk r d' =>
    rw [hr] at hact
    cases r with
    | ok _ => exact hd.grow (at_zero_iff.1 hact)
    | error _ => exact hact

theorem moves_modify {f : Draft → Draft} (h : ∀ d, Grows d (f d)) (l : Level) : Moves l l (modify f) :=
  fun _ _ d hd => hd.grow (h d)

theorem moves_throw {err : Error} (h : err ≠ .draft .pastEnd) : Moves l l' (throw err) :=
  fun _ he _ hd => ⟨h, hd.inRange he⟩

theorem Moves.andThen (h : Moves l l' act) {after : Draft → Draft} (hafter : ∀ d, Grows d (after d)) :
    Moves l l' (andThen act after) := by
  intro e he d hd
  have hact := h e he d hd
  rw [run_andThen]
  cases hr : act.run d with
  | mk r d' =>
    rw [hr] at hact
    cases r with
    | ok _ => exact hact.grow (hafter d')
    | error _ => exact ⟨hact.1, hact.2.grow (hafter d')⟩

theorem Moves.leaving (h : Moves l l' act) : Moves l l' (leaving act) := by
  intro e he
  exact Triple.tryCatch (h e he) fun _ _ hd => ⟨hd.1, hd.2.closeScope⟩

/-- **A block of balanced code** keeps scopes in range: the line end that it drops was written after all of
them began. -/
theorem Moves.block (h : Moves (some 0) (some 0) act) : Moves (some 0) (some 0) (runBlock act) := by
  intro e he
  refine Triple.get_bind fun d hd => ?_
  have hrange := hd.inRange he
  have hframe : ∀ (d : Draft) (blockIndent : Nat), Grows d { d with blockIndent } :=
    fun d _ => ⟨rfl, Nat.le_refl _⟩
  have hact : Triple (At (some 0) d) (Draft.andThen act fun d' => { d' with blockIndent := d.blockIndent })
      (fun _ => At (some 0) d) FailsInRange := h.andThen (fun d' => hframe d' _) d hrange
  refine Triple.bind (Q := fun _ => At (some 0) d) ?_ fun _ => hact.bind fun _ => ?_
  · rintro _ rfl
    exact at_zero_iff.2 (hframe _ _)
  · intro d' hd'
    exact hd.grow (at_zero_iff.1 hd').dropLineEnd

theorem moves_closed : Script.Closed Symbol.Any (Moves (some 0) (some 0)) where
  done := fun _ _ _ hd => hd
  seq := Moves.seq
  read h := by
    refine fun e he => Triple.get_bind fun d hd => ?_
    rintro _ rfl
    exact h _ (fun _ _ _ => trivial) e he _ hd
  change h := moves_modify (grows_law.change h) _
  raise _ := moves_throw (by simp)
  leave h := h.andThen fun d => grows_law.indent d _
  block := Moves.block

/-! ### Sections -/

variable {registry : Registry} {run : RunScript}

/-- The scripts of interceptors are balanced and keep scopes in range. -/
def RunMoves (registry : Registry) (run : RunScript) : Prop :=
  ∀ i ∈ registry, ∀ previous, Moves (some 0) (some 0) (run previous i.script)

theorem RunMoves.script (hrun : RunMoves registry run) {s : Section} {a : Action} {script : Script}
    (h : script ∈ registry.scripts s a) (previous : String) : Moves (some 0) (some 0) (run previous script) := by
  obtain ⟨i, hi, rfl⟩ := mem_scripts h
  exact hrun i hi previous

/-- What holds wherever scopes are in range, and when text is added, holds after a change that opens and closes
no scopes. -/
theorem Moves.keeps (h : Moves (some 0) (some 0) act) {I : Draft → Prop} (hrange : ∀ {d}, I d → d.InRange)
    (hgrow : ∀ {d d'}, I d → Grows d d' → I d') : Triple I act (fun _ => I) FailsInRange := by
  intro d hd
  have hact := h d (hrange hd) d (at_zero_iff.2 (.refl d))
  cases hr : act.run d with
  | mk r d' =>
    rw [hr] at hact
    cases r with
    | ok _ => exact hgrow hd (at_zero_iff.1 hact)
    | error _ => exact hact

/-- In particular the innermost scope stays within the text while it is closed. -/
theorem Moves.keeps_closing (h : Moves (some 0) (some 0) act) (hd : d.InRange) {rest : List Nat}
    (hstarts : d.starts = start :: rest) :
    Triple (fun d' => d'.starts = d.starts ∧ start ≤ d'.text.size) act
      (fun _ d' => d'.starts = d.starts ∧ start ≤ d'.text.size) FailsInRange := by
  refine h.keeps ?_ ?_
  · rintro d' ⟨hsame, hreach⟩
    exact hd.closing hstarts hsame hreach
  · rintro d₁ d₂ ⟨hsame, hreach⟩ hgrows
    exact ⟨hgrows.starts.trans hsame, Nat.le_trans hreach hgrows.size⟩

theorem At.restart (hl : At l e d) (he : e.InRange) {place : Option Section} (h : Grows (d.openScope place) d') :
    At l.up e d'.restartScope := by
  have hstarts : d'.scopes.map Scope.start = d.text.size :: d.starts := h.starts
  have hsize : d.text.size ≤ d'.text.size := h.size
  unfold restartScope
  split
  · rename_i hnil
    rw [hnil] at hstarts
    cases hstarts
  · rename_i top rest hscopes
    rw [hscopes, List.map_cons] at hstarts
    refine hl.push he ?_ hsize (Nat.le_refl _)
    exact congrArg (d'.text.size :: ·) (List.cons.inj hstarts).2

theorem pushSection_moves (hrun : RunMoves registry run) (place : Option Section) (l : Level) :
    Moves l l.up (pushSection registry run place) := by
  intro e he d hd
  have hopen : At l.up e (d.openScope place) := hd.push he rfl (Nat.le_refl _) (Nat.le_refl _)
  cases place with
  | none => exact hopen
  | some s =>
    -- while the prepended scripts run, the new scope begins at the end of the text that was found
    have hscripts : Triple (Grows (d.openScope (some s))) ((registry.scripts s .prepend).forM (run ""))
        (fun _ => Grows (d.openScope (some s))) FailsInRange :=
      Triple.forM _ fun _ hscript => (hrun.script hscript "").keeps (hopen.inRange he).grow grows_law.trans
    have hleave : Triple (Grows (d.openScope (some s))) (Draft.leaving ((registry.scripts s .prepend).forM (run "")))
        (fun _ => Grows (d.openScope (some s))) FailsInRange :=
      Triple.tryCatch hscripts fun _ _ hd => ⟨hd.1, hd.2.closeScope⟩
    have hpush : Triple (· = d) (pushSection registry run (some s)) (fun _ => At l.up e) FailsInRange := by
      refine Triple.bind (Q := fun _ => Grows (d.openScope (some s))) ?_ fun _ => hleave.bind fun _ => ?_
      · rintro _ rfl
        exact .refl _
      · exact fun d' h => hd.restart he h
    exact hpush d rfl

/-- A replacement finds the text that it is to replace, and leaves the text reaching where it began. -/
theorem replaceFrom_keeps (hrun : RunMoves registry run) {s : Section} {script : Script}
    (hscript : script ∈ registry.scripts s .replace) (hd : d.InRange) {rest : List Nat}
    (hstarts : d.starts = start :: rest) :
    Triple (fun d' => d'.starts = d.starts ∧ start ≤ d'.text.size) (replaceFrom run start script)
      (fun _ d' => d'.starts = d.starts ∧ start ≤ d'.text.size) FailsInRange := by
  refine Triple.get_bind fun d' h => ?_
  rw [if_neg (by omega)]
  refine Triple.bind (Q := fun _ d' => d'.starts = d.starts ∧ start ≤ d'.text.size) ?_ fun _ => ?_
  · rintro _ rfl
    exact ⟨h.1, le_size_truncate h.2⟩
  · exact (hrun.script hscript _).keeps_closing hd hstarts

theorem closeSection_keeps (hrun : RunMoves registry run) (hd : d.InRange) {top : Scope} {rest : List Scope}
    (hscopes : d.scopes = top :: rest) :
    Triple (· = d) (closeSection registry run) (fun _ d' => d'.starts = d.starts ∧ top.start ≤ d'.text.size)
      FailsInRange := by
  have hstarts : d.starts = top.start :: rest.map Scope.start := by
    unfold starts
    rw [hscopes, List.map_cons]
  have hreach : top.start ≤ d.text.size := by
    apply hd.le
    rw [hstarts]
    exact List.mem_cons_self
  refine Triple.get_bind fun d₀ heq => ?_
  rw [heq, hscopes]
  obtain ⟨values, place, start, indent, blockIndent⟩ := top
  cases place with
  | none =>
    rintro _ rfl
    exact ⟨rfl, hreach⟩
  | some s =>
    have hreplace : Triple (fun d' => d'.starts = d.starts ∧ start ≤ d'.text.size)
        ((registry.scripts s .replace).forM (replaceFrom run start))
        (fun _ d' => d'.starts = d.starts ∧ start ≤ d'.text.size) FailsInRange :=
      Triple.forM _ fun _ hscript => replaceFrom_keeps hrun hscript hd hstarts
    have happend : Triple (fun d' => d'.starts = d.starts ∧ start ≤ d'.text.size)
        ((registry.scripts s .append).forM (run ""))
        (fun _ d' => d'.starts = d.starts ∧ start ≤ d'.text.size) FailsInRange :=
      Triple.forM _ fun _ hscript => (hrun.script hscript "").keeps_closing hd hstarts
    refine (hreplace.bind fun _ => happend).mono ?_ (fun _ _ h => h) fun _ _ h => h
    rintro _ rfl
    exact ⟨rfl, hreach⟩

theorem popSection_moves (hrun : RunMoves registry run) (l : Level) : Moves l l.down (popSection registry run) := by
  intro e he d hd
  cases hscopes : d.scopes with
  | nil =>
    have hpop : (popSection registry run).run d = (.error (.draft .unmatchedPop), d) := by
      unfold popSection
      rw [run_bind]
      show (if d.scopes.isEmpty then _ else _ : DraftM Unit).run d = _
      rw [hscopes]
      rfl
    rw [hpop]
    exact ⟨by simp, hd.inRange he⟩
  | cons top rest =>
    have hstarts : d.starts = top.start :: rest.map Scope.start := by
      unfold starts
      rw [hscopes, List.map_cons]
    rw [run_popSection (by rw [hscopes]; exact List.cons_ne_nil _ _), run_andThen]
    have hclose := closeSection_keeps hrun (hd.inRange he) hscopes d rfl
    cases hr : (closeSection registry run).run d with
    | mk r d' =>
      rw [hr] at hclose
      cases r with
      | error _ => exact ⟨hclose.1, hclose.2.closeScope⟩
      | ok _ =>
        obtain ⟨hsame, hreach⟩ := hclose
        refine hd.pop he hstarts ?_ ?_
        · rw [closeScope_starts, hsame, hstarts, List.tail_cons]
        · rw [closeScope_size]
          exact hreach

end Draft

open Draft

namespace Script

/-! ### Scripts -/

variable {registry : Registry} {run : RunScript}

mutual

/-- **A step moves as its level says**, if the code among its arguments is balanced. -/
theorem runStep_moves (hrun : RunMoves registry run) (previous : String) : ∀ (step : Step) (l : Level),
    (∀ part ∈ step.parts, part.Sound) → Moves l (step.level l) (runStep registry run previous step)
  | .line template args, l, h => by
    have hslots := slots_moves hrun previous args (h _ List.mem_cons_self) fun p hp => h p (List.mem_cons_of_mem _ hp)
    exact ((moves_closed.expand template hslots).stay l).seq (moves_modify (grows_law.change (.put "\n")) l)
  | .inline template args, l, h => by
    have hslots := slots_moves hrun previous args (h _ List.mem_cons_self) fun p hp => h p (List.mem_cons_of_mem _ hp)
    exact (moves_closed.expand template hslots).stay l
  | .newline, l, _ => moves_modify (grows_law.change (.put "\n")) l
  | .indent, l, _ => moves_modify (grows_law.change .indent) l
  | .dedent, l, _ => moves_modify (grows_law.change .dedent) l
  | .docs text, l, _ => moves_modify (grows_law.change (.docs text)) l
  | .block template args body, l, h => by
    have hslots := slots_moves hrun previous args (h _ List.mem_cons_self) fun p hp =>
      h p (List.mem_cons_of_mem _ (List.mem_append_left _ hp))
    have hbody := runSteps_moves hrun previous body l fun p hp =>
      h p (List.mem_cons_of_mem _ (List.mem_append_right _ hp))
    exact ((moves_closed.expand template hslots).stay l).seq
      ((moves_modify (grows_law.change .enter) l).seq (hbody.andThen fun d => grows_law.indent d _))
  | .define declarator name template args body, l, h => by
    have hslots := slots_moves hrun previous args (h _ List.mem_cons_self) fun p hp =>
      h p (List.mem_cons_of_mem _ (List.mem_append_left _ hp))
    have hbody := runSteps_moves hrun previous body l fun p hp =>
      h p (List.mem_cons_of_mem _ (List.mem_append_right _ hp))
    refine ((moves_closed.expand _ ?_).stay l).seq
      ((moves_modify (grows_law.change .enter) l).seq (hbody.andThen fun d => grows_law.indent d _))
    intro slot hslot
    rcases List.mem_cons.1 hslot with rfl | hslot
    · trivial
    · exact hslots slot hslot
  | .importSymbol s, l, _ => moves_modify (grows_law.change (.importSymbol trivial)) l
  | .importModule module, l, _ => moves_modify (grows_law.change (.importModule module)) l
  | .dependency dep, l, _ => moves_modify (grows_law.change (.dependency dep)) l
  | .put key value, l, _ => moves_modify (grows_law.change (.putValue key fun _ _ => trivial)) l
  | .push place, l, _ => pushSection_moves hrun place l
  | .pop, l, _ => popSection_moves hrun l
  | .scope place body, l, h => by
    have hbody := runSteps_moves hrun previous body l.up fun p hp => h p (List.mem_cons_of_mem _ hp)
    exact (pushSection_moves hrun place l).seq (hbody.leaving.seq (popSection_moves hrun _))
  | .fail e, _, h => moves_throw (h (.fail e) List.mem_cons_self)

theorem runSteps_moves (hrun : RunMoves registry run) (previous : String) : ∀ (steps : List Step) (l : Level),
    (∀ part ∈ Step.partsAll steps, part.Sound) → Moves l (Step.levelAll l steps) (runSteps registry run previous steps)
  | [], _, _ => fun _ _ _ hd => hd
  | step :: rest, l, h =>
    (runStep_moves hrun previous step l fun p hp => h p (List.mem_append_left _ hp)).seq
      (runSteps_moves hrun previous rest _ fun p hp => h p (List.mem_append_right _ hp))

theorem slots_moves (hrun : RunMoves registry run) (previous : String) : ∀ args : List Arg,
    (∀ body ∈ Arg.codes args, Balanced body) → (∀ part ∈ Arg.partsAll args, part.Sound) →
    ∀ slot ∈ slots registry run previous args, slot.Fits Symbol.Any (Moves (some 0) (some 0))
  | [], _, _ => fun _ hslot => by cases hslot
  | .code body :: rest, hcodes, h => by
    intro slot hslot
    rcases List.mem_cons.1 hslot with rfl | hslot
    · have hbody := runSteps_moves hrun previous body (some 0) fun p hp => h p (List.mem_append_left _ hp)
      rwa [hcodes body List.mem_cons_self] at hbody
    · exact slots_moves hrun previous rest (fun b hb => hcodes b (List.mem_cons_of_mem _ hb))
        (fun p hp => h p (List.mem_append_right _ hp)) slot hslot
  | .literal _ :: rest, hcodes, h | .symbol _ :: rest, hcodes, h | .deferred _ :: rest, hcodes, h
  | .name _ :: rest, hcodes, h | .previous :: rest, hcodes, h => by
    intro slot hslot
    rcases List.mem_cons.1 hslot with rfl | hslot
    · trivial
    · exact slots_moves hrun previous rest hcodes (fun p hp => h p (List.mem_append_right _ hp)) slot hslot

end

/-- **A script moves as its level says**, however deep interceptors nest, if their scripts are balanced. -/
theorem runAt_moves (hregistry : ∀ i ∈ registry, i.script.Balanced ∧ i.script.Sound) : ∀ (depth : Nat)
    (previous : String) (script : Script) (l : Level), script.Sound →
      Moves l (Step.levelAll l script) (runAt registry depth previous script) := by
  intro depth
  induction depth with
  | zero => exact fun _ _ _ _ => moves_throw (by simp)
  | succ depth ih =>
    intro previous script l h
    refine runSteps_moves ?_ previous script l h
    intro i hi previous
    obtain ⟨hbalanced, hsound⟩ := hregistry i hi
    have hscript := ih previous i.script (some 0) hsound
    rwa [hbalanced] at hscript

/-- Carries out scripts in turn, also after one that failed: how each ended, and the draft that is left. -/
def session (registry : Registry) : List Script → Draft → List (Except Error Unit) × Draft
  | [], d => ([], d)
  | script :: rest, d =>
    let first := (Script.run registry script).run d
    let others := session registry rest first.2
    (first.1 :: others.1, others.2)

theorem session_keeps (hregistry : ∀ i ∈ registry, i.script.Balanced ∧ i.script.Sound) (scripts : List Script) :
    ∀ d : Draft, (∀ script ∈ scripts, Script.Sound script) → d.InRange →
      (session registry scripts d).2.InRange ∧ .error (.draft .pastEnd) ∉ (session registry scripts d).1 := by
  induction scripts with
  | nil => exact fun d _ hd => ⟨hd, List.not_mem_nil⟩
  | cons script rest ih =>
    intro d hscripts hd
    -- below the scopes of the draft it starts from, a script is only known to keep scopes in range
    have hmoves := runAt_moves hregistry maxDepth "" script none (hscripts script List.mem_cons_self) d hd d hd
    have hfirst : ((Script.run registry script).run d).2.InRange ∧
        ((Script.run registry script).run d).1 ≠ .error (.draft .pastEnd) := by
      unfold Script.run
      cases hr : (runAt registry maxDepth "" script).run d with
      | mk result left =>
        rw [hr] at hmoves
        cases result with
        | ok _ => exact ⟨At.inRange hmoves hd, by simp⟩
        | error err =>
          refine ⟨hmoves.2, ?_⟩
          intro heq
          exact hmoves.1 (Except.error.inj heq)
    obtain ⟨hrange, hothers⟩ := ih _ (fun s hs => hscripts s (List.mem_cons_of_mem _ hs)) hfirst.1
    refine ⟨hrange, ?_⟩
    intro hmem
    rcases List.mem_cons.1 hmem with hmem | hmem
    · exact hfirst.2 hmem.symm
    · exact hothers hmem

theorem expand_code (act : DraftM Unit) : expand "$C" [.block act] = runBlock act >>= fun _ => pure () := rfl

theorem run_replaceFrom_pastEnd {d : Draft} {start : Nat} (h : d.text.size < start) (script : Script) :
    (replaceFrom run start script).run d = (.error (.draft .pastEnd), d) := by
  unfold replaceFrom
  rw [run_bind]
  show (if d.text.size < start then _ else _ : DraftM Unit).run d = _
  rw [if_pos h]
  rfl

/-- A block that ends a line and opens a section leaves it beginning past the end of the text. -/
theorem run_unbalanced {s : Section} (hprepend : registry.scripts s .prepend = []) (d : Draft) : ∃ left scope,
    (runStep registry run "" (.inline "$C" [.code [.newline, .push (some s)]])).run d = (.ok (), left) ∧
    left.text.size = d.text.size ∧ left.scopes = scope :: d.scopes ∧ scope.place = some s ∧
    scope.start = d.text.size + 1 := by
  have hbody : ∀ e : Draft, (runSteps registry run "" [.newline, .push (some s)]).run e =
      (.ok (), ((e.put "\n").openScope (some s)).restartScope) := by
    intro e
    show (pushSection registry run (some s) >>= fun _ => pure ()).run (e.put "\n") = _
    rw [run_bind, run_pushSection hprepend]
    rfl
  obtain ⟨opened, hopened⟩ : ∃ opened, opened =
      ((({ d with blockIndent := d.blockIndent + d.column } : Draft).put "\n").openScope (some s)).restartScope :=
    ⟨_, rfl⟩
  have htext : opened.text = d.text ++ [0x0a].toByteArray := by
    rw [hopened]
    exact push_newline d.text
  have hsize : opened.text.size = d.text.size + 1 := by
    rw [htext, ByteArray.size_append]
    rfl
  -- the block drops its line end, but the section was opened after it
  have hdrop : (dropLineEnd d.text.size { opened with blockIndent := d.blockIndent }).text =
      opened.text.extract 0 d.text.size := by
    have hlast : opened.text[opened.text.size - 1]? = some 0x0a := by
      rw [htext]
      exact getElem?_last (List.cons_ne_nil _ _)
    unfold dropLineEnd
    dsimp only
    rw [hlast, if_pos (by simp [hsize])]
    unfold truncate
    rw [hsize, Nat.add_sub_cancel]
  obtain ⟨text, hframe⟩ := dropLineEnd_frame d.text.size { opened with blockIndent := d.blockIndent }
  refine ⟨(dropLineEnd d.text.size { opened with blockIndent := d.blockIndent }).resetLine, {
    place := some s, start := opened.text.size, indent := d.indent, blockIndent := d.blockIndent + d.column },
    ?_, ?_, ?_, rfl, hsize⟩
  · have hblock : (runBlock (runSteps registry run "" [.newline, .push (some s)])).run d =
        (.ok (), (dropLineEnd d.text.size { opened with blockIndent := d.blockIndent }).resetLine) := by
      rw [run_runBlock, run_bind, run_andThen, hbody, hopened]
      rfl
    show (expand "$C" [.block (runSteps registry run "" [.newline, .push (some s)])]).run d = _
    rw [expand_code, run_bind, hblock]
    rfl
  · show (dropLineEnd d.text.size { opened with blockIndent := d.blockIndent }).text.size = _
    rw [hdrop, ByteArray.size_extract]
    omega
  · rw [hframe, hopened]
    rfl

/-- **The code in blocks has to be balanced.** Wherever a section has a replacement and nothing is prepended to
it, and whatever was written before, a block that ends a line and opens the section leaves a scope out of range;
and closing it then fails. -/
theorem block_leaves_pastEnd {s : Section} (hprepend : registry.scripts s .prepend = [])
    (hreplace : registry.scripts s .replace ≠ []) (d : Draft) : ∃ left,
    (Script.run registry [.inline "$C" [.code [.newline, .push (some s)]]]).run d = (.ok (), left) ∧
    ¬ left.InRange ∧ ((Script.run registry [.pop]).run left).1 = .error (.draft .pastEnd) := by
  obtain ⟨left, scope, hrun, hsize, hscopes, hplace, hstart⟩ :=
    run_unbalanced hprepend d
  have hout : left.text.size < scope.start := by omega
  refine ⟨left, (run_singleton _ _ _ _ d).trans hrun, ?_, ?_⟩
  · intro hrange
    have hmem : scope.start ∈ left.starts := by
      unfold starts
      rw [hscopes]
      exact List.mem_cons_self
    have := hrange.le scope.start hmem
    omega
  · have hone : (Script.run registry [.pop]).run left =
        (popSection registry (runAt registry (maxDepth - 1))).run left :=
      run_singleton _ _ _ _ left
    have hne : left.scopes ≠ [] := by
      rw [hscopes]
      exact List.cons_ne_nil _ _
    rw [hone, run_popSection hne, run_andThen]
    rw [run_closeSection_at hscopes hplace]
    cases hscripts : registry.scripts s .replace with
    | nil => exact absurd hscripts hreplace
    | cons script rest =>
      have hfirst : ((script :: rest).forM (replaceFrom (runAt registry (maxDepth - 1)) scope.start)).run left =
          (.error (.draft .pastEnd), left) := by
        show (replaceFrom (runAt registry (maxDepth - 1)) scope.start script >>= fun _ => rest.forM _).run left = _
        rw [run_bind, run_replaceFrom_pastEnd hout]
      rw [run_bind, hfirst]

/-- **Scopes begin within the text.** Let the scripts of interceptors be balanced, and the code in their blocks and
in those of the scripts at hand. Then, from any draft with its scopes in range, whatever scopes the scripts open
and close otherwise, in bodies of blocks, in scopes or one script for another, and whether or not they fail,
1. every open scope begins within the text, and none before one that is further out;
2. no replacement finds its section past the end of the text.
The condition on blocks cannot be left out, for any draft and any section with a replacement and nothing
prepended to it. -/
theorem scopes_in_range (registry : Registry) (hregistry : ∀ i ∈ registry, i.script.Balanced ∧ i.script.Sound)
    (scripts : List Script) (hscripts : ∀ script ∈ scripts, Script.Sound script) (d : Draft) (hd : d.InRange) :
    (∀ scope ∈ (session registry scripts d).2.scopes, scope.start ≤ (session registry scripts d).2.text.size) ∧
    (session registry scripts d).2.scopes.Pairwise (fun inner outer => outer.start ≤ inner.start) ∧
    .error (.draft .pastEnd) ∉ (session registry scripts d).1 ∧
    ∀ s, registry.scripts s .prepend = [] → registry.scripts s .replace ≠ [] →
      (session registry [[.inline "$C" [.code [.newline, .push (some s)]]], [.pop]] d).1 =
        [.ok (), .error (.draft .pastEnd)] := by
  obtain ⟨hrange, hnone⟩ := session_keeps hregistry scripts d hscripts hd
  refine ⟨?_, List.pairwise_map.1 hrange.ordered, hnone, ?_⟩
  · intro scope hscope
    exact hrange.le scope.start (List.mem_map_of_mem hscope)
  · intro s hprepend hreplace
    obtain ⟨left, hopen, -, hclose⟩ := block_leaves_pastEnd hprepend hreplace d
    simp only [session, hopen, hclose]

/-- A replacement that opens a scope of its own and closes it again. -/
def wrappingRegistry : Registry :=
  [{ place := .serviceErrors, action := .replace, script := [.push none, .inline "<$L>" [.previous], .pop] }]

/-- Steps that leave scopes open and close them elsewhere, with a block that opens one and closes it. -/
def looseScripts : List Script :=
  [[.push (some .serviceErrors), .inline "$C" [.code [.push none, .newline, .pop, .newline]]],
    [.block "a:" [] [.pop, .push (some .serviceErrors)], .fail (.draft .unmatchedPop)], [.pop]]

theorem scopes_in_range_loose :
    (∀ scope ∈ (session wrappingRegistry looseScripts { ns := "", package := "" }).2.scopes,
      scope.start ≤ (session wrappingRegistry looseScripts { ns := "", package := "" }).2.text.size) ∧
    .error (.draft .pastEnd) ∉ (session wrappingRegistry looseScripts { ns := "", package := "" }).1 ∧
    (session wrappingRegistry [[.inline "$C" [.code [.newline, .push (some .serviceErrors)]]], [.pop]]
      { ns := "", package := "" }).1 = [.ok (), .error (.draft .pastEnd)] := by
  have h := scopes_in_range wrappingRegistry (by decide) looseScripts (by decide) { ns := "", package := "" }
    ⟨by simp [starts], List.Pairwise.nil⟩
  refine ⟨h.1, h.2.2.1, h.2.2.2 .serviceErrors ?_ ?_⟩
  · with_unfolding_all rfl
  · with_unfolding_all exact List.cons_ne_nil _ _

end Script

end ClientGen
