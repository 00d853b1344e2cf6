import ClientGen.Proofs.ImportClashes
import ClientGen.Proofs.InitFiles
import ClientGen.Toml.Quoted
import Mathlib

/-!
# The description in the project file

The description is any text, and the project file holds it in a string of one line. Quotes and backslashes get a
backslash in front, and every other character is written as it is. TOML allows that for all characters but the control
characters, and of these for the tab only. **So the description reads back exactly if it has no other.**

* `Toml.basicWithin_escaped`: what a reader makes of one character, and `basic_escapeQuotes` of a text.
* `ProjectInfo.render_pyproject`: where the description stands in the project file.
* `description_reads_iff`: all this together.
-/

namespace ClientGen

/-! ### Between quotes -/

/-- A character as it stands between quotes. -/
def Package.escaped (c : Char) : List Char := if c = '"' || c = '\\' then ['\\', c] else [c]

namespace Toml

open Package (escaped)

variable {fuel : Nat} {rest : List Char}

/-- A reader takes back one character, if it is a plain one. -/
theorem basicWithin_escaped (c : Char) : basicWithin (fuel + 1) (escaped c ++ rest) =
    if isPlain c then (basicWithin fuel rest).map fun r => (c :: r.1, r.2) else none := by
  by_cases hquote : c = '"'
  · subst hquote
    rfl
  by_cases hslash : c = '\\'
  · subst hslash
    rfl
  · have hself : escaped c = [c] := by simp [escaped, hquote, hslash]
    rw [hself, List.singleton_append, basicWithin]
    · exact hquote
    · exact hslash

/-- Each character takes one step, with the backslash in front of it. -/
theorem basicWithin_text (cs : List Char) : ∀ {fuel : Nat}, cs.length < fuel →
    basicWithin fuel (cs.flatMap escaped ++ '"' :: rest) = if cs.all isPlain then some (cs, rest) else none := by
  induction cs with
  | nil =>
    intro fuel hfuel
    obtain ⟨fuel, rfl⟩ := Nat.exists_eq_succ_of_ne_zero (Nat.ne_of_gt hfuel)
    rfl
  | cons c cs ih =>
    intro fuel hfuel
    obtain ⟨fuel, rfl⟩ := Nat.exists_eq_succ_of_ne_zero (Nat.ne_of_gt (Nat.zero_lt_of_lt hfuel))
    have hrest := ih (Nat.lt_of_succ_lt_succ hfuel)
    rw [List.flatMap_cons, List.append_assoc, basicWithin_escaped, hrest, List.all_cons]
    cases isPlain c <;> cases cs.all isPlain <;> rfl

end Toml

/-! ### The project file -/

/-- The parts of a page are rendered one after the other. -/
theorem Page.renderParts_append {strict : Bool} {data : Json} (ps qs : List Part) : ∀ {text : String},
    renderParts strict (ps ++ qs) data = .ok text → ∃ first more,
      renderParts strict ps data = .ok first ∧ renderParts strict qs data = .ok more ∧ text = first ++ more := by
  induction ps with
  | nil =>
    intro text h
    exact ⟨"", text, by rw [renderParts], h, by simp⟩
  | cons p ps ih =>
    intro text h
    rw [List.cons_append, renderParts] at h
    obtain ⟨part, hpart, h⟩ := bind_ok_iff.1 h
    obtain ⟨rest, hrest, h⟩ := bind_ok_iff.1 h
    cases h
    obtain ⟨first, more, hfirst, hmore, rfl⟩ := ih hrest
    refine ⟨part ++ first, more, ?_, hmore, (String.append_assoc ..).symm⟩
    rw [renderParts, hpart, hfirst]
    rfl

namespace ProjectInfo

set_option maxRecDepth 10000 in
/-- How the page of the project file begins. -/
theorem pyproject_parts : ∃ a b c, (Page.parse (pyproject.map String.toList)).map (List.take 7) =
    some [.text a, .value "name", .text b, .value "version", .text ("\"" ++ "\ndescription = \""),
      .value "description", .text ("\"\nreadme = \"" ++ c)] := by
  refine ⟨"# Code generated by shapegen. DO NOT EDIT.\n\n[project]\nname = \"", "\"\nversion = \"",
    "README.md\"\nrequires-python = \"", ?_⟩
  with_unfolding_all rfl

/-- **The project file holds the description between quotes**, on a line of its own. -/
theorem render_pyproject {p : ProjectInfo} {text : String} (h : p.render "pyproject" = .ok text) :
    ∃ before after, text = before ++ "\ndescription = \"" ++ p.description ++ "\"\nreadme = \"" ++ after := by
  obtain ⟨a, b, c, hparts⟩ := pyproject_parts
  obtain ⟨parts, hparse, htake⟩ := Option.map_eq_some_iff.1 hparts
  have hrender : Page.renderParts true parts p.data = .ok text := by
    have hpage : p.render "pyproject" = Page.renderLines true (pyproject.map String.toList) p.data := rfl
    rw [hpage, Page.renderLines, hparse] at h
    exact h
  rw [← List.take_append_drop 7 parts, htake] at hrender
  obtain ⟨first, more, hfirst, -, rfl⟩ := Page.renderParts_append _ _ hrender
  have hvalues : first = a ++ (p.name ++ (b ++ (p.version ++ (("\"" ++ "\ndescription = \"") ++ (p.description ++
      (("\"\nreadme = \"" ++ c) ++ "")))))) := (Except.ok.inj hfirst).symm
  refine ⟨a ++ p.name ++ b ++ p.version ++ "\"", c ++ more, ?_⟩
  simp only [hvalues, String.append_assoc, String.empty_append]

end ProjectInfo

/-! ### The files of a run -/

namespace Package

theorem basic_escapeQuotes (s : String) (rest : List Char) : Toml.basic ((escapeQuotes s).toList ++ '"' :: rest) =
    if s.toList.all Toml.isPlain then some (s.toList, rest) else none := by
  have htext : (escapeQuotes s).toList = s.toList.flatMap escaped := String.toList_ofList
  rw [htext]
  refine Toml.basicWithin_text s.toList ?_
  have hlength : s.toList.length ≤ (s.toList.flatMap escaped).length := by
    have hone : ∀ n ∈ s.toList.map fun c => (escaped c).length, 1 ≤ n := by
      refine List.forall_mem_map.2 fun c _ => ?_
      unfold escaped
      split <;> simp
    rw [List.length_flatMap]
    simpa using List.length_le_sum_of_one_le _ hone
  rw [List.length_append]
  omega

/-- The files of a run, without those of the project. -/
def Run.sources (run : Run) : Except Error Manifest := do
  let registry := run.integrations.flatMap Integration.interceptors
  let (folder, _) ← carryOut { package := run.cx.settings.module, registry } run.plan
  let (folder, files) ← (run.integrations.flatMap Integration.customizations).foldlM customize (folder, {})
  return (folder.flush files).addInitFiles

variable {extra : List Integration} {m : Model} {settings : Settings} {run : Run} {files files' : Manifest}

theorem Run.of_settings (h : Run.of extra m settings = .ok run) : run.cx.settings = settings := by
  unfold Run.of at h
  split at h
  · cases h
  obtain ⟨_, -, h⟩ := bind_ok_iff.1 h
  obtain ⟨_, -, h⟩ := bind_ok_iff.1 h
  obtain ⟨_, -, h⟩ := bind_ok_iff.1 h
  obtain ⟨cx, hcx, h⟩ := bind_ok_iff.1 h
  obtain ⟨_, -, h⟩ := bind_ok_iff.1 h
  cases h
  exact (prepare_ok hcx).settings

theorem projectInfo_description {cx : Context} {client : Option Symbol} {dependencies : List Dependency}
    {info : ProjectInfo} (h : projectInfo cx client dependencies = .ok info) :
    info.description = escapeQuotes (description cx.settings cx.service) := by
  unfold projectInfo at h
  cases client with
  | none =>
    cases h
    rfl
  | some s =>
    obtain ⟨_, -, h⟩ := bind_ok_iff.1 h
    cases h
    rfl

/-- A project file that is not there is added. -/
theorem get?_addProjectFile {info : ProjectInfo} {path : Path} {page : String}
    (h : addProjectFile info files path page = .ok files') (hnew : files.has path = false) :
    ∃ text, info.render page = .ok text ∧ files'.get? path = some text := by
  unfold addProjectFile at h
  rw [hnew] at h
  obtain ⟨text, htext, h⟩ := bind_ok_iff.1 h
  cases h
  refine ⟨text, htext, ?_⟩
  unfold Manifest.get? Manifest.write
  rw [Dictionary.get?_insert, if_pos (Location.compare_eq_iff.2 rfl)]

/-- Another file stays as it is. -/
theorem get?_addProjectFile_other {info : ProjectInfo} {path other : Path} {page : String}
    (h : addProjectFile info files path page = .ok files') (hne : other.components ≠ path.components) :
    files'.get? other = files.get? other := by
  unfold addProjectFile at h
  split at h
  · cases h
    rfl
  · obtain ⟨text, -, h⟩ := bind_ok_iff.1 h
    cases h
    unfold Manifest.get? Manifest.write
    rw [Dictionary.get?_insert, if_neg]
    rw [Location.compare_eq_iff]
    exact hne

/-- The files of a folder are those of its drafts. -/
theorem of_mem_flush {folder : Folder} {e : Location × String} (h : e ∈ (folder.flush files).files) :
    e ∈ files.files ∨ ∃ draft ∈ folder.drafts, e.1.path.components = (Path.mk draft.1).components := by
  unfold Folder.flush at h
  generalize folder.drafts = drafts at h ⊢
  induction drafts generalizing files with
  | nil => exact .inl h
  | cons draft drafts ih =>
    rcases ih h with h | ⟨draft', hdraft', hsame⟩
    · rcases Dictionary.mem_insert h with ⟨hkey, -⟩ | h
      · refine .inr ⟨draft, List.mem_cons_self, ?_⟩
        rcases hkey with hkey | hkey
        · rw [hkey]
          rfl
        · exact (Location.compare_eq_iff.1 hkey).symm
      · exact .inl h
    · exact .inr ⟨draft', List.mem_cons_of_mem _ hdraft', hsame⟩

/-- A module is in the directory of its package. -/
theorem length_moduleFile {package sub : String} (hpackage : package.toList ≠ []) (hsub : sub ∈ submodules) :
    2 ≤ (Path.mk (moduleFile package sub)).components.length := by
  have hfiles : ∀ sub ∈ submodules,
      0 < (Path.named (Text.pieces '/' ((Text.replaceChar '.' '/' sub).toList ++ ".py".toList))).length := by
    decide +kernel
  have htext : (moduleFile package sub).toList =
      package.toList ++ '/' :: ((Text.replaceChar '.' '/' sub).toList ++ ".py".toList) := by
    simp [moduleFile, String.toList_append]
  have hdir : 0 < (Path.denoted package.toList).length :=
    List.length_pos_iff.2 fun hnil => hpackage (Path.denoted_eq_nil_iff.1 hnil)
  rw [Path.components_eq, htext, Path.denoted_append hpackage, List.length_append]
  have := hfiles sub hsub
  omega

/-- **Without other integrations the project file is not there yet.** -/
theorem Run.Made.sources_lack (hmade : run.Made m settings) (h : run.sources = .ok files) :
    files.has ⟨"pyproject.toml"⟩ = false := by
  have hnone : ∀ {β : Type} {part : Integration → List β}, (∀ i, Additive i → part i = []) →
      run.integrations.flatMap part = [] := fun hpart =>
    List.flatMap_eq_nil_iff.2 fun i hi => hpart i (hmade.additive i hi)
  unfold Run.sources at h
  rw [hnone fun i hi => hi.interceptors, hnone fun i hi => hi.customizations] at h
  obtain ⟨⟨folder, client⟩, hcarried, h⟩ := bind_ok_iff.1 h
  cases h
  obtain ⟨folder', happlied, hplan⟩ := bind_ok_iff.1 hcarried
  obtain ⟨client', -, heq⟩ := bind_ok_iff.1 hplan
  cases heq
  rw [Bool.eq_false_iff]
  intro hhas
  rw [Manifest.has, Dictionary.has, Dictionary.get?, Option.isSome_map, List.find?_isSome] at hhas
  obtain ⟨e, he, hkey⟩ := hhas
  have hpath : [.name "pyproject.toml"] = e.1.path.components := Location.compare_eq_iff.1 (eq_of_beq hkey)
  rcases Manifest.of_mem_addInitFiles he with he | ⟨-, _, -, -, dir, -, hinit⟩
  · rcases of_mem_flush he with he | ⟨draft, hdraft, hsame⟩
    · cases he
    · obtain ⟨⟨edit, hedit, hfile, -⟩, -⟩ := Folder.applyAll_imports happlied hdraft
      obtain ⟨sub, hsub, -, hmodule⟩ := ((plan_conducts hmade {} Survey.tidy_empty).out edit hedit).housed
      have hpackage : run.cx.package.toList ≠ [] := by
        intro hnil
        have hidentifier := hmade.identifier
        rw [← (prepare_ok hmade.context).settings, ← Context.package, hnil] at hidentifier
        cases hidentifier
      have hlength : 2 ≤ (Path.mk (moduleFile run.survey.cx.package sub)).components.length :=
        length_moduleFile hpackage hsub
      rw [← hmodule, hfile, ← hsame, ← hpath] at hlength
      simp at hlength
  · -- the files that are added are called otherwise
    rw [← hpath, Manifest.initOf] at hinit
    have hlast := congrArg List.getLast? hinit
    simp at hlast

/-- **The description reads back exactly if it has no control characters other than tabs.** If generation succeeds,
1. the project file is added, unless it is among the files of the run; without other integrations it is not;
2. where it is added, it holds the description between quotes, on a line of its own;
3. TOML reads what follows the opening quote as the description, up to the closing quote, if all characters of the
   description are plain, and else not at all. -/
theorem description_reads_iff (h : generate extra m settings = .ok files) :
    ∃ run sources, Run.of extra m settings = .ok run ∧ run.sources = .ok sources ∧
      (extra = [] → sources.has ⟨"pyproject.toml"⟩ = false) ∧
      (sources.has ⟨"pyproject.toml"⟩ = false → ∃ before after,
        let text := description settings run.cx.service
        files.get? ⟨"pyproject.toml"⟩ =
          some (before ++ "\ndescription = \"" ++ escapeQuotes text ++ "\"\nreadme = \"" ++ after) ∧
        Toml.basic (escapeQuotes text ++ "\"\nreadme = \"" ++ after).toList =
          if text.toList.all Toml.isPlain then some (text.toList, ("\nreadme = \"" ++ after).toList) else none) := by
  obtain ⟨run, hrun, h⟩ := bind_ok_iff.1 h
  obtain ⟨⟨folder, client⟩, hcarried, h⟩ := bind_ok_iff.1 h
  obtain ⟨⟨folder', customized⟩, hcustomized, h⟩ := bind_ok_iff.1 h
  obtain ⟨info, hinfo, h⟩ := bind_ok_iff.1 h
  obtain ⟨files', hproject, hreadme⟩ := bind_ok_iff.1 h
  have hsettings := Run.of_settings hrun
  have hsources : run.sources = .ok (folder'.flush customized).addInitFiles := by
    rw [← hsettings] at hcarried
    exact bind_ok_iff.2 ⟨_, hcarried, bind_ok_iff.2 ⟨_, hcustomized, rfl⟩⟩
  refine ⟨run, _, hrun, hsources, ?_, fun hnew => ?_⟩
  · rintro rfl
    exact (Run.of_ok hrun).sources_lack hsources
  · obtain ⟨text, htext, hget⟩ := get?_addProjectFile hproject hnew
    obtain ⟨before, after, rfl⟩ := ProjectInfo.render_pyproject htext
    have hdescription := projectInfo_description hinfo
    rw [hsettings] at hdescription
    refine ⟨before, after, ?_, ?_⟩
    · rw [get?_addProjectFile_other hreadme (by decide +kernel), hget, hdescription]
    · have hquote : "\"\nreadme = \"".toList = '"' :: "\nreadme = \"".toList := by decide +kernel
      rw [String.toList_append, String.toList_append, hquote, String.toList_append, List.append_assoc]
      exact basic_escapeQuotes _ _

/-- A service without operations. -/
def bareModel : Model where
  shapes := [{ id := sampleSettings.service, kind := .service {} }]
  distinct := by decide

/-- A description of two lines. -/
def twoLines : Settings := { sampleSettings with description := some "a\nb" }

def twoLinesRun : Run where
  integrations := [httpAuth]
  cx := {
    model := bareModel
    settings := twoLines
    provider := { package := "p" }
    order := ⟨[sampleSettings.service], []⟩
    service := { id := sampleSettings.service, kind := .service {} } }
  plugins := httpAuth.plugins
  protocol := none

/-- **Not every project file can be read**: the line end in a description stays as it is. -/
theorem description_twoLines : ∃ files before after, generate [] bareModel twoLines = .ok files ∧
    files.get? ⟨"pyproject.toml"⟩ =
      some (before ++ "\ndescription = \"" ++ "a\nb" ++ "\"\nreadme = \"" ++ after) ∧
    Toml.basic ("a\nb" ++ "\"\nreadme = \"" ++ after).toList = none := by
  have hrun : Run.of [] bareModel twoLines = .ok twoLinesRun := by cbv
  have hfiles : ∃ files, generate [] bareModel twoLines = .ok files := by
    unfold generate
    rw [hrun]
    exact exists_ok_of_isSome (by decide +kernel)
  obtain ⟨files, hfiles⟩ := hfiles
  obtain ⟨run, sources, hrun', -, hlack, hadded⟩ := description_reads_iff hfiles
  cases hrun.symm.trans hrun'
  obtain ⟨before, after, hget, hreads⟩ := hadded (hlack rfl)
  have htext : escapeQuotes (description twoLines twoLinesRun.cx.service) = "a\nb" := by decide +kernel
  rw [htext] at hget hreads
  exact ⟨files, before, after, hfiles, hget, hreads.trans (if_neg (by decide +kernel))⟩

end Package

end ClientGen
