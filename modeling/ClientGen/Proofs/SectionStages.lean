import ClientGen.Proofs.SectionReach
import Mathlib

/-!
# The stages of a section

What a section leaves in a draft is the text that interceptors put before it, the section's own text or what the
last replacement made of it, and the text that interceptors put after it.

* `Script.section_stages`: a section succeeds by its stages, and only interceptors of opened sections matter.
-/

namespace ClientGen

/-! ### The order of interceptors -/

namespace Registry

/-- The interceptors that act on the section in the given way, in the order they run. -/
structure InOrder (registry : Registry) (s : Section) (a : Action) (is : List Interceptor) : Prop where
  descending : is.Pairwise fun i j => j.priority ≤ i.priority
  /-- Those of one priority are as registered. -/
  ties : ∀ p, is.filter (fun i => i.priority = p) =
    registry.filter fun i => i.place = s ∧ i.action = a ∧ i.priority = p

variable {registry : Registry} {s : Section} {a : Action} {is js : List Interceptor}

theorem priority_trans (i j k : Interceptor) (hij : decide (j.priority ≤ i.priority) = true)
    (hjk : decide (k.priority ≤ j.priority) = true) : decide (k.priority ≤ i.priority) = true := by
  rw [decide_eq_true_eq] at *
  omega

theorem priority_total (i j : Interceptor) :
    (decide (j.priority ≤ i.priority) || decide (i.priority ≤ j.priority)) = true := by
  rw [Bool.or_eq_true, decide_eq_true_eq, decide_eq_true_eq]
  omega

theorem forSection_descending (registry : Registry) (s : Section) :
    (registry.forSection s).Pairwise fun i j => j.priority ≤ i.priority := by
  have hsorted := List.pairwise_mergeSort priority_trans priority_total (registry.filter fun i => i.place == s)
  exact hsorted.imp of_decide_eq_true

/-- Sorting keeps the order of those with one priority: they are sorted already, so they are a sublist of the
result, and no more of them are in it. -/
theorem filter_forSection (registry : Registry) (s : Section) (p : Int) :
    (registry.forSection s).filter (fun i => i.priority = p) =
      (registry.filter fun i => i.place == s).filter fun i => i.priority = p := by
  unfold forSection
  generalize (registry.filter fun i => i.place == s) = l
  have hpairwise : (l.filter fun i => i.priority = p).Pairwise fun i j => decide (j.priority ≤ i.priority) = true := by
    rw [List.pairwise_filter]
    refine List.pairwise_of_forall fun i j hi hj => ?_
    rw [decide_eq_true_eq] at *
    omega
  have hsub := List.sublist_mergeSort priority_trans priority_total hpairwise List.filter_sublist
  have hfilter := hsub.filter fun i => i.priority = p
  rw [List.filter_filter] at hfilter
  simp only [Bool.and_self] at hfilter
  have hperm := (List.mergeSort_perm l fun a b => b.priority ≤ a.priority).filter fun i => i.priority = p
  exact (hfilter.eq_of_length hperm.length_eq.symm).symm

theorem inOrder_forSection (registry : Registry) (s : Section) (a : Action) :
    registry.InOrder s a ((registry.forSection s).filter fun i => i.action == a) := by
  refine ⟨(forSection_descending registry s).filter _, fun p => ?_⟩
  rw [List.filter_comm, filter_forSection, List.filter_filter, List.filter_filter]
  apply List.filter_congr
  intro i _
  rw [Bool.eq_iff_iff]
  simp only [Bool.and_eq_true, beq_iff_eq, decide_eq_true_eq]
  tauto

theorem priority_le_head {i j : Interceptor} {is js : List Interceptor} (hj : ∀ k ∈ js, k.priority ≤ j.priority)
    (h : (i :: is).filter (fun k => k.priority = i.priority) = (j :: js).filter fun k => k.priority = i.priority) :
    i.priority ≤ j.priority := by
  have hmem : i ∈ (j :: js).filter fun k => k.priority = i.priority := by
    rw [← h, List.mem_filter]
    exact ⟨List.mem_cons_self, decide_eq_true rfl⟩
  rcases List.mem_cons.1 (List.mem_of_mem_filter hmem) with rfl | hmem
  · exact Int.le_refl _
  · exact hj i hmem

/-- Two lists in descending order with the same members of each priority, in the same order, are the same. -/
theorem eq_of_filter_eq : ∀ {is js : List Interceptor}, is.Pairwise (fun i j => j.priority ≤ i.priority) →
    js.Pairwise (fun i j => j.priority ≤ i.priority) →
    (∀ p, is.filter (fun i => i.priority = p) = js.filter fun i => i.priority = p) → is = js := by
  intro is
  induction is with
  | nil =>
    intro js _ _ h
    cases js with
    | nil => rfl
    | cons j js =>
      have hj := h j.priority
      rw [List.filter_cons_of_pos (by simp)] at hj
      cases hj
  | cons i is ih =>
    intro js hi hj h
    cases js with
    | nil =>
      have hi := h i.priority
      rw [List.filter_cons_of_pos (by simp)] at hi
      cases hi
    | cons j js =>
      rw [List.pairwise_cons] at hi hj
      -- each head is in the other list, so neither has the higher priority
      have heq : i.priority = j.priority :=
        Int.le_antisymm (priority_le_head hj.1 (h _)) (priority_le_head hi.1 (h _).symm)
      have hhead := h i.priority
      rw [List.filter_cons_of_pos (by simp), List.filter_cons_of_pos (by simp [heq]), List.cons.injEq] at hhead
      obtain ⟨rfl, -⟩ := hhead
      congr 1
      refine ih hi.2 hj.2 fun p => ?_
      have hp := h p
      by_cases hip : i.priority = p
      · rw [List.filter_cons_of_pos (by simp [hip]), List.filter_cons_of_pos (by simp [hip])] at hp
        exact (List.cons.inj hp).2
      · rwa [List.filter_cons_of_neg (by simp [hip]), List.filter_cons_of_neg (by simp [hip])] at hp

/-- **The order is determined** by the priorities and the registration. -/
theorem InOrder.unique (h : registry.InOrder s a is) (h' : registry.InOrder s a js) : is = js :=
  eq_of_filter_eq h.descending h'.descending fun p => (h.ties p).trans (h'.ties p).symm

end Registry

namespace Draft

/-! ### Writing in turn -/

/-- The interceptors write the text, one after another. -/
inductive Written (run : RunScript) : List Interceptor → Draft → String → Draft → Prop where
  | nil (d : Draft) : Written run [] d "" d
  | cons {i : Interceptor} {is : List Interceptor} {d d₁ d₂ : Draft} {text more : String} :
      (run "" i.script).run d = (.ok (), d₁) → d₁.text = d.text ++ text.toUTF8 → Written run is d₁ more d₂ →
      Written run (i :: is) d (text ++ more) d₂

/-- The interceptors replace the text `x` after `base`, one after another, and leave the text `z` there. Each is
given what it replaces. -/
inductive Replaced (run : RunScript) (base : ByteArray) : List Interceptor → Draft → String → Draft → String → Prop where
  | nil (d : Draft) (x : String) : Replaced run base [] d x d x
  | cons {i : Interceptor} {is : List Interceptor} {d d₁ d₂ : Draft} {x y z : String} :
      (run x i.script).run { d with text := base }.resetLine = (.ok (), d₁) → d₁.text = base ++ y.toUTF8 →
      Replaced run base is d₁ y d₂ z → Replaced run base (i :: is) d x d₂ z

variable {run : RunScript} {is : List Interceptor} {d d' : Draft} {text : String}

theorem Written.text_eq (h : Written run is d text d') : d'.text = d.text ++ text.toUTF8 := by
  induction h with
  | nil d => exact ByteArray.append_empty.symm
  | cons _ htext _ ih => rw [ih, htext, toUTF8_append, ByteArray.append_assoc]

theorem written_iff (hrun : ∀ i ∈ is, Keeps Within (run "" i.script)) :
    ((is.map (·.script)).forM (run "")).run d = (.ok (), d') ↔ ∃ text, Written run is d text d' := by
  induction is generalizing d with
  | nil =>
    constructor
    · intro h
      cases h
      exact ⟨"", .nil _⟩
    · rintro ⟨_, ⟨⟩⟩
      rfl
  | cons i is ih =>
    show (run "" i.script >>= fun _ => (is.map (·.script)).forM (run "")).run d = _ ↔ _
    rw [run_bind_ok]
    constructor
    · rintro ⟨_, d₁, hone, hrest⟩
      have hwithin := hrun i List.mem_cons_self d
      rw [hone] at hwithin
      obtain ⟨text, htext⟩ := hwithin.text
      obtain ⟨more, hmore⟩ := (ih fun j hj => hrun j (List.mem_cons_of_mem _ hj)).1 hrest
      exact ⟨text ++ more, .cons hone htext hmore⟩
    · rintro ⟨_, hwritten⟩
      cases hwritten with
      | cons hone _ hrest => exact ⟨(), _, hone, (ih fun j hj => hrun j (List.mem_cons_of_mem _ hj)).2 ⟨_, hrest⟩⟩

variable {d₀ : Draft} {place : Option Section} {base : ByteArray} {x z : String}

theorem Replaced.text_eq (h : Replaced run base is d x d' z) (hx : d.text = base ++ x.toUTF8) :
    d'.text = base ++ z.toUTF8 := by
  induction h with
  | nil => exact hx
  | cons _ hy _ ih => exact ih hy

theorem run_replaceFrom (hx : d.text = base ++ x.toUTF8) (script : Script) :
    (replaceFrom run base.size script).run d = (run x script).run { d with text := base }.resetLine := by
  have hbefore : Text.decodeLossy (d.text.extract base.size d.text.size) = x := by
    rw [hx, ByteArray.extract_append_eq_right rfl (ByteArray.size_append), Text.decodeLossy_toUTF8]
  have hcut : d.text.extract 0 base.size = base := by
    rw [hx]
    exact ByteArray.extract_append_eq_left rfl
  have hreach : ¬ d.text.size < base.size := by
    rw [hx, ByteArray.size_append]
    omega
  unfold replaceFrom
  rw [run_bind]
  show (if d.text.size < base.size then _ else _ : DraftM Unit).run d = _
  rw [if_neg hreach]
  show (run (Text.decodeLossy (d.text.extract base.size d.text.size)) script).run (d.truncate base.size).resetLine = _
  unfold truncate
  rw [hbefore, hcut]

theorem replaced_iff (hrun : ∀ i ∈ is, ∀ previous, Keeps Within (run previous i.script))
    (hx : d.text = base ++ x.toUTF8) :
    ((is.map (·.script)).forM (replaceFrom run base.size)).run d = (.ok (), d') ↔
      ∃ z, Replaced run base is d x d' z := by
  induction is generalizing d x with
  | nil =>
    constructor
    · intro h
      cases h
      exact ⟨x, .nil _ x⟩
    · rintro ⟨_, ⟨⟩⟩
      rfl
  | cons i is ih =>
    have hrest : ∀ j ∈ is, ∀ previous, Keeps Within (run previous j.script) :=
      fun j hj => hrun j (List.mem_cons_of_mem _ hj)
    show (replaceFrom run base.size i.script >>= fun _ => (is.map (·.script)).forM (replaceFrom run base.size)).run d = _ ↔ _
    rw [run_bind_ok, run_replaceFrom hx]
    constructor
    · rintro ⟨_, d₁, hone, hmore⟩
      have hwithin := hrun i List.mem_cons_self x { d with text := base }.resetLine
      rw [hone] at hwithin
      obtain ⟨y, hy⟩ := hwithin.text
      obtain ⟨z, hz⟩ := (ih hrest hy).1 hmore
      exact ⟨z, .cons hone hy hz⟩
    · rintro ⟨z, hreplaced⟩
      cases hreplaced with
      | cons hone hy hmore => exact ⟨(), _, hone, (ih hrest hy).2 ⟨z, hmore⟩⟩

/-! ### The stages -/

/-- Who writes at each stage of a section, what, and the draft that is left. -/
structure Stages where
  prepends : List Interceptor
  prepended : String
  opened : Draft
  /-- The section's own text. -/
  own : String
  bodied : Draft
  replaces : List Interceptor
  /-- What stands in the place of the section's own text. -/
  text : String
  replaced : Draft
  appends : List Interceptor
  appended : String
  finished : Draft

/-- The stages of a section that is opened at `d` and whose own text is written by `act`. -/
structure Stages.Of (g : Stages) (registry : Registry) (run : RunScript) (s : Section) (act : DraftM Unit)
    (d : Draft) : Prop where
  prepends : registry.InOrder s .prepend g.prepends
  replaces : registry.InOrder s .replace g.replaces
  appends : registry.InOrder s .append g.appends
  prepended : Written run g.prepends (d.openScope (some s)) g.prepended g.opened
  bodied : act.run g.opened.restartScope = (.ok (), g.bodied)
  own : g.bodied.text = d.text ++ g.prepended.toUTF8 ++ g.own.toUTF8
  replaced : Replaced run (d.text ++ g.prepended.toUTF8) g.replaces g.bodied g.own g.replaced g.text
  appended : Written run g.appends g.replaced g.appended g.finished

variable {registry : Registry} {s : Section} {act : DraftM Unit}

theorem run_pushSection_ok :
    (pushSection registry run (some s)).run d = (.ok (), d') ↔ ∃ d₁,
      ((registry.scripts s .prepend).forM (run "")).run (d.openScope (some s)) = (.ok (), d₁) ∧ d' = d₁.restartScope := by
  show (leaving ((registry.scripts s .prepend).forM (run "")) >>= fun _ => modify restartScope).run
    (d.openScope (some s)) = _ ↔ _
  rw [run_bind_ok]
  constructor
  · rintro ⟨_, d₁, hprepend, hrestart⟩
    cases hrestart
    exact ⟨d₁, run_leaving_ok.1 hprepend, rfl⟩
  · rintro ⟨d₁, hprepend, rfl⟩
    exact ⟨(), d₁, run_leaving_ok.2 hprepend, rfl⟩

theorem run_popSection_ok (hin : Inside d₀ (some s) base d) :
    (popSection registry run).run d = (.ok (), d') ↔ ∃ d₁ d₂,
      ((registry.scripts s .replace).forM (replaceFrom run base.size)).run d = (.ok (), d₁) ∧
      ((registry.scripts s .append).forM (run "")).run d₁ = (.ok (), d₂) ∧ d' = d₂.closeScope := by
  rw [run_popSection hin.scopes_ne_nil, run_andThen, run_closeSection hin, Prod.mk.injEq]
  constructor
  · rintro ⟨hok, rfl⟩
    have hboth := run_bind_ok.1 (Prod.ext hok rfl)
    obtain ⟨_, d₁, hreplace, happend⟩ := hboth
    exact ⟨d₁, _, hreplace, happend, rfl⟩
  · rintro ⟨d₁, d₂, hreplace, happend, rfl⟩
    have hboth : ((registry.scripts s .replace).forM (replaceFrom run base.size) >>= fun _ =>
        (registry.scripts s .append).forM (run "")).run d = (.ok (), d₂) :=
      run_bind_ok.2 ⟨(), d₁, hreplace, happend⟩
    rw [hboth]
    exact ⟨rfl, rfl⟩

section

variable (hrun : RunWithin registry run) (hact : Keeps Within act)

include hrun hact

/-- After its own text is written, the draft is inside the section, whose text begins after what was prepended. -/
theorem inside_bodied {d₁ d₂ : Draft}
    (hprepend : ((registry.scripts s .prepend).forM (run "")).run (d.openScope (some s)) = (.ok (), d₁))
    (hbody : act.run d₁.restartScope = (.ok (), d₂)) : Inside d (some s) d₁.text d₂ := by
  have hopened : Inside d (some s) d.text d₁ := by
    have h := (scripts_inside hrun s .prepend).of_run (inside_openScope d (some s))
    rwa [hprepend] at h
  have hwithin := hact d₁.restartScope
  rw [hbody] at hwithin
  exact hopened.restart.step hwithin

theorem inScope_ok :
    (inScope registry run (some s) act).run d = (.ok (), d') ↔ ∃ d₁ d₂ d₃ d₄,
      ((registry.scripts s .prepend).forM (run "")).run (d.openScope (some s)) = (.ok (), d₁) ∧
      act.run d₁.restartScope = (.ok (), d₂) ∧
      ((registry.scripts s .replace).forM (replaceFrom run d₁.text.size)).run d₂ = (.ok (), d₃) ∧
      ((registry.scripts s .append).forM (run "")).run d₃ = (.ok (), d₄) ∧ d' = d₄.closeScope := by
  unfold inScope
  rw [run_bind_ok]
  constructor
  · rintro ⟨_, _, hpush, hrest⟩
    obtain ⟨d₁, hprepend, rfl⟩ := run_pushSection_ok.1 hpush
    obtain ⟨_, d₂, hbody, hpop⟩ := run_bind_ok.1 hrest
    have hbody := run_leaving_ok.1 hbody
    obtain ⟨d₃, d₄, hclose⟩ := (run_popSection_ok (inside_bodied hrun hact hprepend hbody)).1 hpop
    exact ⟨d₁, d₂, d₃, d₄, hprepend, hbody, hclose⟩
  · rintro ⟨d₁, d₂, d₃, d₄, hprepend, hbody, hclose⟩
    have hpop := (run_popSection_ok (inside_bodied hrun hact hprepend hbody)).2 ⟨d₃, d₄, hclose⟩
    exact ⟨(), _, run_pushSection_ok.2 ⟨d₁, hprepend, rfl⟩, run_bind_ok.2 ⟨(), d₂, run_leaving_ok.2 hbody, hpop⟩⟩

/-- **A section succeeds by its stages.** -/
theorem inScope_ok_iff :
    (inScope registry run (some s) act).run d = (.ok (), d') ↔
      ∃ g : Stages, g.Of registry run s act d ∧ d' = g.finished.closeScope := by
  have hgroup : ∀ a, ∀ i ∈ (registry.forSection s).filter (fun i => i.action == a), ∀ previous,
      Keeps Within (run previous i.script) :=
    fun a i hi => hrun i (Registry.mem_forSection.1 (List.mem_of_mem_filter hi)).1
  rw [inScope_ok hrun hact]
  constructor
  · rintro ⟨d₁, d₂, d₃, d₄, hprepend, hbody, hreplace, happend, rfl⟩
    obtain ⟨own, hown⟩ := (inside_bodied hrun hact hprepend hbody).text
    obtain ⟨prepended, hprepended⟩ := (written_iff fun i hi => hgroup .prepend i hi "").1 hprepend
    obtain ⟨text, hreplaced⟩ := (replaced_iff (hgroup .replace) hown).1 hreplace
    obtain ⟨appended, happended⟩ := (written_iff fun i hi => hgroup .append i hi "").1 happend
    have hopened : d₁.text = d.text ++ prepended.toUTF8 := hprepended.text_eq
    rw [hopened] at hown hreplaced
    exact ⟨⟨_, prepended, d₁, own, d₂, _, text, d₃, _, appended, d₄⟩,
      ⟨registry.inOrder_forSection s _, registry.inOrder_forSection s _, registry.inOrder_forSection s _,
        hprepended, hbody, hown, hreplaced, happended⟩, rfl⟩
  · rintro ⟨g, hg, rfl⟩
    have hopened : g.opened.text = d.text ++ g.prepended.toUTF8 := hg.prepended.text_eq
    have hprepended := hg.prepended
    have hreplaced := hg.replaced
    have happended := hg.appended
    have hown := hg.own
    -- there is only one order, so the lists are those that run
    rw [hg.prepends.unique (registry.inOrder_forSection s _)] at hprepended
    rw [hg.replaces.unique (registry.inOrder_forSection s _), ← hopened] at hreplaced
    rw [hg.appends.unique (registry.inOrder_forSection s _)] at happended
    rw [← hopened] at hown
    exact ⟨g.opened, g.bodied, g.replaced, g.finished, (written_iff fun i hi => hgroup .prepend i hi "").2 ⟨_, hprepended⟩,
      hg.bodied, (replaced_iff (hgroup .replace) hown).2 ⟨_, hreplaced⟩,
      (written_iff fun i hi => hgroup .append i hi "").2 ⟨_, happended⟩, rfl⟩

end

theorem closeScope_text (d : Draft) : d.closeScope.text = d.text := by
  unfold closeScope
  split <;> rfl

theorem Stages.Of.text_eq {g : Stages} (h : g.Of registry run s act d) :
    g.finished.closeScope.text = d.text ++ g.prepended.toUTF8 ++ g.text.toUTF8 ++ g.appended.toUTF8 := by
  rw [closeScope_text, h.appended.text_eq, h.replaced.text_eq h.own]

end Draft

open Draft

namespace Script

/-- **The semantics of a section.** It succeeds by its stages, and leaves the text before it, then what was
prepended, what stands for its own text, and what was appended. Interceptors of sections that are not opened
change nothing. -/
theorem section_stages (registry : Registry) (hregistry : ∀ i ∈ registry, i.script.Paired) (s : Section)
    (body : Script) (hbody : body.Paired) (depth : Nat) (previous : String) (d : Draft) :
    (∀ d', (runAt registry (depth + 1) previous [.scope (some s) body]).run d = (.ok (), d') ↔
      ∃ g : Stages, g.Of registry (runAt registry depth) s (runAt registry (depth + 1) previous body) d ∧
        d' = g.finished.closeScope ∧
        d'.text = d.text ++ g.prepended.toUTF8 ++ g.text.toUTF8 ++ g.appended.toUTF8) ∧
    ∀ other : Registry, (∀ t, Opens registry [.scope (some s) body] t → other.forSection t = registry.forSection t) →
      runAt other (depth + 1) previous [.scope (some s) body] =
        runAt registry (depth + 1) previous [.scope (some s) body] := by
  have hpaired : Paired [.scope (some s) body] := by
    intro part hpart
    rw [Step.partsAll, Step.parts, Step.partsAll, List.append_nil] at hpart
    rcases List.mem_cons.1 hpart with rfl | hpart
    · rfl
    · exact hbody part hpart
  refine ⟨fun d' => ?_, fun other h => runAt_congr hregistry (depth + 1) previous _ hpaired h⟩
  have hrun : RunWithin registry (runAt registry depth) :=
    fun i hi previous => runAt_within hregistry depth previous (hregistry i hi)
  have hact : Keeps Within (runAt registry (depth + 1) previous body) := runAt_within hregistry _ previous hbody
  have hone := run_singleton registry (runAt registry depth) previous (.scope (some s) body) d
  have hscope : (runAt registry (depth + 1) previous [.scope (some s) body]).run d =
      (inScope registry (runAt registry depth) (some s) (runAt registry (depth + 1) previous body)).run d := hone
  rw [hscope, inScope_ok_iff hrun hact]
  constructor
  · rintro ⟨g, hg, rfl⟩
    exact ⟨g, hg, rfl, hg.text_eq⟩
  · rintro ⟨g, hg, hd', -⟩
    exact ⟨g, hg, hd'⟩

/-- A replacement that puts a mark before what it replaces. -/
def marking (priority : Int) (mark : String) : Interceptor :=
  { place := .serviceErrors, priority, action := .replace, script := [.inline (mark ++ "$L") [.previous]] }

/-- Two replacements, the one that is registered later with the higher priority, and an interceptor of another
section. -/
def markingRegistry : Registry :=
  [marking 0 "b", marking 1 "a", { place := .configProperties, action := .append, script := [.inline "z" []] }]

/-- The draft after a section with these interceptors. -/
def markedDraft : Draft :=
  ((runAt markingRegistry 2 "" [.scope (some .serviceErrors) [.inline "x" []]]).run { ns := "", package := "" }).2

theorem section_stages_marking :
    markedDraft.text = "bax".toUTF8 ∧
    ∃ g : Stages, g.Of markingRegistry (runAt markingRegistry 1) .serviceErrors
      (runAt markingRegistry 2 "" [.inline "x" []]) { ns := "", package := "" } ∧
      markedDraft = g.finished.closeScope ∧
      markedDraft.text = .empty ++ g.prepended.toUTF8 ++ g.text.toUTF8 ++ g.appended.toUTF8 := by
  have hok : ((runAt markingRegistry 2 "" [.scope (some .serviceErrors) [.inline "x" []]]).run
      { ns := "", package := "" }).1 = .ok () := by cbv
  have htext : markedDraft.text = "bax".toUTF8 := by cbv
  have hstages := section_stages markingRegistry (by decide) .serviceErrors [.inline "x" []] (by decide) 1 ""
    { ns := "", package := "" }
  exact ⟨htext, (hstages.1 markedDraft).1 (Prod.ext hok rfl)⟩

end Script

end ClientGen
