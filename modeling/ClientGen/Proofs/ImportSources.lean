import ClientGen.Proofs.Mentions
import ClientGen.Proofs.ScopedState
import ClientGen.Proofs.ScriptFailures

/-!
# Where the imports of a file come from

A file imports names for the symbols that its scripts mention, for the ones these refer to, and for nothing else.

* `Folder.applyAll_imports`: each name that a file imports is brought by a symbol that some edit of the file
  mentions.
-/

namespace ClientGen

namespace Imports

/-- The name is taken from the module. -/
def Takes (i : Imports) (module : String) (n : ImportedName) : Prop := ∃ names, (module, names) ∈ i.names ∧ n ∈ names

theorem takes_add {i : Imports} {module module' : String} {n n' : ImportedName}
    (h : (i.add module n).Takes module' n') : module' = module ∧ n' = n ∨ i.Takes module' n' := by
  obtain ⟨names, hentry, hn⟩ := h
  rcases Dictionary.mem_insert_lawful hentry with heq | hentry
  · cases heq
    rcases mem_insertSorted hn with rfl | hn
    · exact .inl ⟨rfl, rfl⟩
    -- the other names are those that the module had before
    cases hget : Dictionary.get? module i.names with
    | none =>
      rw [hget] at hn
      cases hn
    | some before =>
      rw [hget] at hn
      exact .inr ⟨before, Dictionary.mem_of_get? hget, hn⟩
  · exact .inr ⟨names, hentry, hn⟩

end Imports

/-- A mention of the symbol in the module `ns` imports the name from the module: it is the name of the symbol, or
of one that it refers to, which is declared elsewhere. -/
def Symbol.Brings (s : Symbol) (ns module : String) (n : ImportedName) : Prop :=
  ∃ c ∈ s.closure, c.isBuiltin = false ∧ c.ns ≠ ns ∧ module = c.ns ∧ n = { name := c.name, localName := c.localName }

/-! ### What steps mention, and what their parts do -/

theorem Arg.names_of_mentions (args : List Arg) : ∀ arg ∈ args, arg.Names (· ∈ Arg.mentionsAll args) := by
  induction args with
  | nil => simp
  | cons first rest ih =>
    intro arg harg
    rcases List.mem_cons.1 harg with rfl | harg
    · cases arg with
      | symbol s | deferred s => exact List.mem_cons_self
      | _ => trivial
    · exact Arg.Names.mono (fun s hs => List.mem_append_right _ hs) (ih arg harg)

mutual

theorem Step.names_of_mentions : ∀ (step : Step) {part : Step}, part ∈ step.parts → part.Names (· ∈ step.mentions)
  | .line _ args, part, h | .inline _ args, part, h => by
    rcases List.mem_cons.1 h with rfl | h
    · exact Arg.names_of_mentions args
    · exact Arg.names_parts args h
  | .block _ args body, part, h | .define _ _ _ args body, part, h => by
    rcases List.mem_cons.1 h with rfl | h
    · exact fun arg harg => Arg.Names.mono (fun s hs => List.mem_append_left _ hs) (Arg.names_of_mentions args arg harg)
    rcases List.mem_append.1 h with h | h
    · exact Step.Names.mono (fun s hs => List.mem_append_left _ hs) (Arg.names_parts args h)
    · exact Step.Names.mono (fun s hs => List.mem_append_right _ hs) (Step.names_parts body h)
  | .scope place body, part, h => by
    rcases List.mem_cons.1 h with rfl | h
    · trivial
    · exact Step.names_parts body h
  | .importSymbol s, part, h => by
    cases List.mem_singleton.1 h
    exact List.mem_singleton_self s
  | .put key value, part, h => by
    cases List.mem_singleton.1 h
    rintro s rfl
    exact List.mem_singleton_self s
  | .newline, part, h | .indent, part, h | .dedent, part, h | .docs _, part, h | .importModule _, part, h
  | .dependency _, part, h | .push _, part, h | .pop, part, h | .fail _, part, h => by
    cases List.mem_singleton.1 h
    trivial

theorem Step.names_parts : ∀ (steps : List Step) {part : Step}, part ∈ Step.partsAll steps →
    part.Names (· ∈ Step.mentionsAll steps)
  | step :: rest, part, h => by
    rcases List.mem_append.1 h with h | h
    · exact Step.Names.mono (fun s hs => List.mem_append_left _ hs) (Step.names_of_mentions step h)
    · exact Step.Names.mono (fun s hs => List.mem_append_right _ hs) (Step.names_parts rest h)

theorem Arg.names_parts : ∀ (args : List Arg) {part : Step}, part ∈ Arg.partsAll args →
    part.Names (· ∈ Arg.mentionsAll args)
  | .code body :: rest, part, h => by
    rcases List.mem_append.1 h with h | h
    · exact Step.Names.mono (fun s hs => List.mem_append_left _ hs) (Step.names_parts body h)
    · exact Step.Names.mono (fun s hs => List.mem_append_right _ hs) (Arg.names_parts rest h)
  | .literal _ :: rest, part, h | .symbol _ :: rest, part, h | .deferred _ :: rest, part, h | .name _ :: rest, part, h
  | .previous :: rest, part, h => Step.Names.mono (fun s hs => List.mem_append_right _ hs) (Arg.names_parts rest h)

end

/-! ### Scripts -/

namespace Draft

/-- All that the draft of the module imports is brought by symbols that satisfy `S`, and templates may name such
symbols only. -/
structure Sourced (S : Symbol → Prop) (ns : String) (d : Draft) : Prop where
  home : d.ns = ns
  imports : ∀ module n, d.imports.Takes module n → ∃ s, S s ∧ s.Brings ns module n
  values : ∀ entry ∈ d.values, ∀ s, entry.2 = .symbol s → S s
  scopes : ∀ scope ∈ d.scopes, ∀ entry ∈ scope.values, ∀ s, entry.2 = .symbol s → S s

variable {S : Symbol → Prop} {ns : String} {d : Draft}

theorem findValue?_mem {key : String} {values : List (String × ContextValue)} {value : ContextValue}
    (h : findValue? key values = some value) : ∃ entry ∈ values, entry.2 = value := by
  obtain ⟨entry, hentry, rfl⟩ := Option.map_eq_some_iff.1 h
  exact ⟨entry, List.mem_of_find?_eq_some hentry, rfl⟩

theorem Sourced.offers (h : d.Sourced S ns) : d.Offers S := by
  intro name s hvalue
  unfold value? at hvalue
  split at hvalue
  · rename_i value hfound
    cases hvalue
    obtain ⟨scope, hscope, hvalue⟩ := List.exists_of_findSome?_eq_some hfound
    obtain ⟨entry, hentry, hs⟩ := findValue?_mem hvalue
    exact h.scopes scope hscope entry hentry s hs
  · obtain ⟨entry, hentry, hs⟩ := findValue?_mem hvalue
    exact h.values entry hentry s hs

theorem Sourced.text (h : d.Sourced S ns) (text : ByteArray) (indent blockIndent : Nat) (atLineStart : Bool)
    (column : Nat) : { d with text, indent, blockIndent, atLineStart, column }.Sourced S ns :=
  ⟨h.home, h.imports, h.values, h.scopes⟩

theorem Sourced.put (h : d.Sourced S ns) (s : String) : (d.put s).Sourced S ns := by
  obtain ⟨text, atLineStart, column, heq⟩ := put_frame d s
  rw [heq]
  exact h.text _ _ _ _ _

theorem Sourced.dependencies (h : d.Sourced S ns) (dependencies : List Dependency) :
    { d with dependencies }.Sourced S ns :=
  ⟨h.home, h.imports, h.values, h.scopes⟩

theorem Sourced.addDependencies (h : d.Sourced S ns) (deps : List Dependency) :
    (deps.foldl addDependency d).Sourced S ns := by
  induction deps generalizing d with
  | nil => exact h
  | cons dep deps ih => exact ih (h.dependencies _)

theorem Sourced.importOne (h : d.Sourced S ns) {s c : Symbol} (hs : S s) (hc : c ∈ s.closure) :
    (d.importOne c).Sourced S ns := by
  have hdeps := h.addDependencies c.dependencies
  unfold Draft.importOne
  dsimp only
  split
  · exact hdeps
  · rename_i hother
    rw [hdeps.home, Bool.or_eq_true, not_or, beq_iff_eq, Bool.not_eq_true] at hother
    refine ⟨hdeps.home, fun module n htakes => ?_, hdeps.values, hdeps.scopes⟩
    rcases Imports.takes_add htakes with ⟨rfl, rfl⟩ | htakes
    · exact ⟨s, hs, c, hc, hother.1, hother.2, rfl, rfl⟩
    · exact hdeps.imports module n htakes

theorem Sourced.importSymbol (h : d.Sourced S ns) {s : Symbol} (hs : S s) : (d.importSymbol s).Sourced S ns := by
  have hall : ∀ closure : List Symbol, (∀ c ∈ closure, c ∈ s.closure) → ∀ d : Draft, d.Sourced S ns →
      (closure.foldl Draft.importOne d).Sourced S ns := by
    intro closure
    induction closure with
    | nil => exact fun _ _ hd => hd
    | cons c rest ih =>
      intro hclosure d hd
      exact ih (fun t ht => hclosure t (List.mem_cons_of_mem _ ht)) _ (hd.importOne hs (hclosure c List.mem_cons_self))
  exact hall s.closure (fun _ hc => hc) d h

theorem mem_setValue {key : String} {value : ContextValue} {values : List (String × ContextValue)}
    {entry : String × ContextValue} (h : entry ∈ setValue key value values) :
    entry = (key, value) ∨ entry ∈ values := by
  rcases List.mem_cons.1 h with h | h
  · exact .inl h
  · exact .inr (List.mem_of_mem_filter h)

theorem Sourced.putValue (h : d.Sourced S ns) (key : String) {value : ContextValue}
    (hvalue : ∀ s, value = .symbol s → S s) : (d.putValue key value).Sourced S ns := by
  have hset : ∀ values : List (String × ContextValue), (∀ entry ∈ values, ∀ s, entry.2 = .symbol s → S s) →
      ∀ entry ∈ setValue key value values, ∀ s, entry.2 = .symbol s → S s := by
    intro values hvalues entry hentry
    rcases mem_setValue hentry with rfl | hentry
    · exact hvalue
    · exact hvalues entry hentry
  unfold Draft.putValue
  split
  · exact ⟨h.home, h.imports, hset _ h.values, h.scopes⟩
  · rename_i top rest hscopes
    refine ⟨h.home, h.imports, h.values, fun scope hscope => ?_⟩
    rcases List.mem_cons.1 hscope with rfl | hscope
    · exact hset _ (h.scopes top (hscopes ▸ List.mem_cons_self))
    · exact h.scopes scope (hscopes ▸ List.mem_cons_of_mem _ hscope)

/-- **The changes that steps make keep the sources of a draft.** -/
theorem Sourced.change (h : d.Sourced S ns) {f : Draft → Draft} (hf : Change S f) : (f d).Sourced S ns := by
  cases hf with
  | put s => exact h.put s
  | docs s =>
    dsimp only
    unfold putDocs
    split
    · exact h
    · exact h.put _
  | mention hs | mentionDeferred hs => exact (h.importSymbol hs).put _
  | importSymbol hs => exact h.importSymbol hs
  | importModule module => exact ⟨h.home, h.imports, h.values, h.scopes⟩
  | dependency dep => exact h.dependencies _
  | putValue key hvalue => exact h.putValue key hvalue
  | indent | dedent => exact h.text _ _ _ _ _
  | enter => exact (h.put "\n").text _ _ _ _ _

theorem Sourced.section (h : d.Sourced S ns) {f : Draft → Draft} (hf : SectionChange f) : (f d).Sourced S ns := by
  cases hf with
  | openScope place =>
    refine ⟨h.home, h.imports, h.values, fun scope hscope => ?_⟩
    rcases List.mem_cons.1 hscope with rfl | hscope
    · simp
    · exact h.scopes scope hscope
  | restartScope =>
    unfold restartScope
    split
    · exact h
    · rename_i top rest hscopes
      refine ⟨h.home, h.imports, h.values, fun scope hscope => ?_⟩
      rcases List.mem_cons.1 hscope with rfl | hscope
      · exact h.scopes top (hscopes ▸ List.mem_cons_self)
      · exact h.scopes scope (hscopes ▸ List.mem_cons_of_mem _ hscope)
  | closeScope =>
    unfold closeScope
    split
    · exact h
    · rename_i top rest hscopes
      exact ⟨h.home, h.imports, h.values, fun scope hscope => h.scopes scope (hscopes ▸ List.mem_cons_of_mem _ hscope)⟩
  | replace start => exact h.text _ _ _ _ _

theorem sourced_chain (S : Symbol → Prop) (ns : String) : Chain fun d d' => d.Sourced S ns → d'.Sourced S ns where
  refl _ h := h
  trans h h' hd := h' (h hd)

theorem sourced_runBlock {act : DraftM Unit} (h : Keeps (fun d d' => d.Sourced S ns → d'.Sourced S ns) act) :
    Keeps (fun d d' => d.Sourced S ns → d'.Sourced S ns) (runBlock act) := by
  intro d hd
  obtain ⟨left, heq, hleft⟩ := runBlock_leaves act d
  have hsourced : left.Sourced S ns := by
    rw [heq]
    exact (h _ (hd.text _ _ _ _ _)).text _ _ _ _ _
  rcases hleft with hleft | hleft
  · rw [hleft]
    exact hsourced
  · obtain ⟨text, hframe⟩ := dropLineEnd_frame d.text.size left
    rw [hleft, hframe]
    exact hsourced.text _ _ _ _ _

end Draft

open Draft

namespace Script

theorem sourced_closed (S : Symbol → Prop) (ns : String) :
    SectionClosed S (Keeps fun d d' => d.Sourced S ns → d'.Sourced S ns) where
  done := (sourced_chain S ns).keeps_pure ()
  seq hx hy := (sourced_chain S ns).keeps_bind hx fun _ => hy
  read h d hd := h d hd.offers d hd
  change hf _ hd := hd.change hf
  raise _ := (sourced_chain S ns).keeps_throw _
  leave h := (sourced_chain S ns).keeps_andThen h fun _ hd => hd.text _ _ _ _ _
  block := sourced_runBlock
  sections hf _ hd := hd.section hf
  leaving h := (sourced_chain S ns).keeps_leaving h fun _ hd => hd.section .closeScope
  unmatched := (sourced_chain S ns).keeps_throw _
  pastEnd := (sourced_chain S ns).keeps_throw _

/-- **A script imports for what it mentions only**, however it ends, where nothing intercepts it. -/
theorem run_sourced {S : Symbol → Prop} {ns : String} {script : Script} (h : ∀ s ∈ Step.mentionsAll script, S s)
    {d : Draft} (hd : d.Sourced S ns) : ((Script.run [] script).run d).2.Sourced S ns := by
  refine runAt_sectionClosed (sourced_closed S ns) ((sourced_chain S ns).keeps_throw _) (by simp) maxDepth "" ?_ d hd
  intro part hpart
  exact ⟨Step.Names.mono h (Step.names_parts script hpart), fun _ _ => (sourced_chain S ns).keeps_throw _⟩

end Script

/-! ### Folders -/

namespace Folder

/-- A file is written by edits of its module, and imports for what they mention only. -/
structure SourcedBy (edits : List Edit) (path : String) (d : Draft) : Prop where
  edited : ∃ e ∈ edits, e.path = path ∧ e.ns = d.ns
  sourced : d.Sourced (fun s => ∃ e ∈ edits, e.path = path ∧ e.ns = d.ns ∧ s ∈ Step.mentionsAll e.script) d.ns

theorem SourcedBy.of_sourced {edits : List Edit} {path ns : String} {d : Draft}
    (hedited : ∃ e ∈ edits, e.path = path ∧ e.ns = ns)
    (h : d.Sourced (fun s => ∃ e ∈ edits, e.path = path ∧ e.ns = ns ∧ s ∈ Step.mentionsAll e.script) ns) :
    SourcedBy edits path d := by
  obtain rfl := h.home
  exact ⟨hedited, h⟩

theorem apply_sourced {edits : List Edit} {folder : Folder} (hregistry : folder.registry = []) {e : Edit}
    (he : e ∈ edits) (h : ∀ file ∈ folder.drafts, SourcedBy edits file.1 file.2) (hok : (folder.apply e).1 = .ok ()) :
    ∀ file ∈ (folder.apply e).2.drafts, SourcedBy edits file.1 file.2 := by
  let S : Symbol → Prop := fun s => ∃ e' ∈ edits, e'.path = e.path ∧ e'.ns = e.ns ∧ s ∈ Step.mentionsAll e'.script
  -- the draft that the edit finds
  have hfound : ∀ draft, (Dictionary.get? e.path folder.drafts).getD { ns := e.ns, package := folder.package } = draft →
      draft.ns = e.ns → draft.Sourced S e.ns := by
    intro draft hdraft hns
    cases hget : Dictionary.get? e.path folder.drafts with
    | none =>
      rw [hget] at hdraft
      cases hdraft
      refine ⟨rfl, fun module n htakes => ?_, by simp, by simp⟩
      obtain ⟨_, hnone, -⟩ := htakes
      cases hnone
    | some found =>
      rw [hget] at hdraft
      cases hdraft
      have hsourced := (h _ (Dictionary.mem_of_get? hget)).sourced
      simp only [Option.getD_some] at hns
      rwa [hns] at hsourced
  unfold apply at hok ⊢
  dsimp only at hok ⊢
  generalize hdraft : (Dictionary.get? e.path folder.drafts).getD { ns := e.ns, package := folder.package } = draft
    at hok ⊢
  split at hok
  · cases hok
  rename_i hns
  have hns : draft.ns = e.ns := by simpa using hns
  rw [if_neg (by simpa using hns), hregistry]
  have hran : ((Script.run [] e.script).run draft).2.Sourced S e.ns :=
    Script.run_sourced (fun s hs => ⟨e, he, rfl, rfl, hs⟩) (hfound draft hdraft hns)
  intro file hfile
  rcases Dictionary.mem_insert_lawful hfile with rfl | hfile
  · exact .of_sourced ⟨e, he, rfl, rfl⟩ hran
  · exact h file hfile

theorem applyAll_sourced {edits : List Edit} : ∀ (rest : List Edit) {folder folder' : Folder}, folder.registry = [] →
    (∀ e ∈ rest, e ∈ edits) → (∀ file ∈ folder.drafts, SourcedBy edits file.1 file.2) →
    folder.applyAll rest = .ok folder' → ∀ file ∈ folder'.drafts, SourcedBy edits file.1 file.2 := by
  intro rest
  induction rest with
  | nil =>
    intro folder folder' _ _ h hok
    cases hok
    exact h
  | cons e rest ih =>
    intro folder folder' hregistry hrest h hok
    have happly := apply_sourced hregistry (hrest e List.mem_cons_self) h
    have hsame := apply_registry folder e
    rw [applyAll] at hok
    cases hr : folder.apply e with
    | mk result next =>
      rw [hr] at hok happly hsame
      cases result with
      | error err => cases hok
      | ok _ => exact ih (hsame.trans hregistry) (fun t ht => hrest t (List.mem_cons_of_mem _ ht)) (happly rfl) hok

/-- **A file imports for what its edits mention only.** -/
theorem applyAll_imports {package : String} {edits : List Edit} {folder : Folder}
    (h : ({ package } : Folder).applyAll edits = .ok folder) {path : String} {d : Draft}
    (hd : (path, d) ∈ folder.drafts) :
    (∃ e ∈ edits, e.path = path ∧ e.ns = d.ns) ∧ ∀ module n, d.imports.Takes module n →
      ∃ e ∈ edits, e.path = path ∧ e.ns = d.ns ∧ ∃ s ∈ Step.mentionsAll e.script, s.Brings d.ns module n := by
  have hsourced := applyAll_sourced edits rfl (fun _ he => he) (by simp) h (path, d) hd
  refine ⟨hsourced.edited, fun module n htakes => ?_⟩
  obtain ⟨s, ⟨e, he, hpath, hns, hs⟩, hbrings⟩ := hsourced.sourced.imports module n htakes
  exact ⟨e, he, hpath, hns, s, hs, hbrings⟩

end Folder

end ClientGen
