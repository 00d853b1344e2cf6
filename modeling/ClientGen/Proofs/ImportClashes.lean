import ClientGen.Proofs.AdmittedMentions
import ClientGen.Proofs.DistinctDefinitions
import ClientGen.Proofs.ImportSources

/-!
# When imports clash

A file should not import one local name from two modules, nor import a name that it defines itself. Reserved words
keep classes apart from some of the names that every package has, but not from all of them, and nothing keeps
variants and methods apart from them.

* `clash_coincides`: each clash is a coincidence of names in the model, and the names of every package that a
  class can take are the unreserved ones.
-/

namespace ClientGen

open Naming Package Text

/-- The file imports the local name from the module. -/
def Imports.Binds (i : Imports) (module name : String) : Prop :=
  ∃ n, i.Takes module n ∧ n.localName.getD n.name = name

/-! ### The names that files define -/

namespace TypesKnown

variable {cx : Context} {t : Table} (hcx : cx.Standard) (h : TypesKnown cx t) {shape : Shape} {sub name : String}

include hcx h

theorem holds_modelNames (he : cx.Emits shape) {ns : String} (hn : (ns, name) ∈ modelNames cx shape) :
    cx.Holds modelsModule (cx.package ++ "." ++ modelsModule) name := by
  have htext : name ∈ modelTexts cx shape := List.mem_map.2 ⟨_, hn, rfl⟩
  have hclass : shape.kind.hasClass = true →
      cx.Holds modelsModule (cx.package ++ "." ++ modelsModule) (className shape.id.name) :=
    fun hk => .given (by decide) (.valueClass he.2.1 hk)
  have hfunction : ∀ e, shape.kind.element? = some e →
      (ns, name) ∈ (if cx.converted shape.id then functionNames cx shape.id else []) →
      cx.Holds modelsModule (cx.package ++ "." ++ modelsModule) name := by
    intro e hk hn
    split at hn
    · rename_i hc
      have htext : name ∈ (functionNames cx shape.id).map Prod.snd := List.mem_map.2 ⟨_, hn, rfl⟩
      rw [h.collection_texts hcx he hk hc, List.mem_cons, List.mem_singleton] at htext
      rcases htext with rfl | rfl
      · exact .converter (by decide)
      · exact .converter (by decide)
    · cases hn
  cases hk : shape.kind with
  | struct members | enumeration values =>
    have hsym : cx.sym shape.id = valueClass cx.package shape.id := hcx.sym_plain he.id_member he.2.1 hk rfl rfl
    simp only [modelTexts, modelNames, hk, List.map_cons, List.map_nil, List.mem_singleton] at htext
    rw [htext, hsym, valueClass_name]
    exact hclass (by rw [hk]; rfl)
  | union members =>
    rw [union_texts hcx he hk, List.mem_append, List.mem_map] at htext
    simp only [unionHelpers, List.mem_cons, List.not_mem_nil, or_false] at htext
    rcases htext with ⟨m, hm, rfl⟩ | rfl | rfl | rfl
    · have hmem : m ∈ shape.members := by simpa [Shape.members, hk, Kind.members] using hm
      obtain ⟨first, hmember⟩ := Shape.member?_of_mem hmem
      exact .given (by decide) (.variant he.2.1 hk hmember)
    · exact .given (by decide) (.unknown he.2.1 hk)
    · exact hclass (by rw [hk]; rfl)
    · exact .reader
  | list e | set e | map k e =>
    refine hfunction e (by rw [hk]; rfl) ?_
    simpa only [modelNames, hk] using hn
  | scalar type | operation op | service service => simp [modelNames, hk] at hn

/-- **The names that are defined for types.** -/
theorem holds_typeNames (hsub : sub ∈ submodules) (hn : (cx.package ++ "." ++ sub, name) ∈ typeNames cx) :
    cx.Holds sub (cx.package ++ "." ++ sub) name := by
  rcases mem_typeNames hcx hn with ⟨hns, hname⟩ | ⟨id, hid, heq⟩ | ⟨shape, he, hname⟩
  · obtain rfl := module_inj hns
    have hown : ∀ name ∈ ["logger", "_DEFAULT_TIMESTAMP", "ServiceError", "ApiError", "UnknownApiError"],
        (modelsModule, name) ∈ ownNames modelsModule := by decide
    exact .fixed (List.mem_append_right _ (List.mem_map.2 ⟨_, hown name (preambleNames_subset cx.model hname), rfl⟩))
  · have hmodule : (schemaName cx id).1 ∈ modules cx.package := by
      rw [← heq]
      exact List.mem_map.2 ⟨sub, hsub, rfl⟩
    rw [h.schemaName_own hcx hid hmodule] at heq
    obtain ⟨hns, rfl⟩ := Prod.mk.inj heq
    obtain rfl := module_inj hns
    obtain ⟨shape, hs⟩ := (h.sound.faithful id _ (h.known_of_hasSchema hid)).get?
    exact .constant hs (h.schema_own hcx hid hmodule).1
  · obtain rfl := module_inj (h.modelNames_owner hcx he hname).1
    exact h.holds_modelNames hcx he hname

end TypesKnown

namespace Package

/-- **The names that the modules of a client define.** -/
theorem holds_clientNames {cx : Context} (hcx : cx.Standard) {protocol : Option HttpProtocol}
    {operations : List (Shape × Operation)} {resolution : AuthResolution} {schemes : List AuthScheme}
    (hschemes : ∀ s ∈ schemes, s ∈ builtinSchemes) {sub name : String}
    (hn : (cx.package ++ "." ++ sub, name) ∈ clientNames cx protocol operations resolution schemes) :
    cx.Holds sub (cx.package ++ "." ++ sub) name := by
  have hown : ∀ {sub : String}, (sub, name) ∈ ownNames sub → cx.Holds sub (cx.package ++ "." ++ sub) name :=
    fun hown => .fixed (List.mem_append_right _ (List.mem_map.2 ⟨_, hown, rfl⟩))
  rw [clientNames, List.mem_append, List.mem_append, List.mem_append] at hn
  rcases hn with hn | hn | hn | hn
  · cases protocol with
    | none => simp [protocolNames] at hn
    | some p =>
      simp only [protocolNames, List.mem_append, List.mem_map, List.mem_singleton] at hn
      rcases hn with ⟨o, -, heq⟩ | ⟨o, -, heq⟩ | heq
      · obtain ⟨hns, rfl⟩ := Prod.mk.inj heq
        obtain rfl := module_inj hns
        exact .converter (by decide)
      · obtain ⟨hns, rfl⟩ := Prod.mk.inj heq
        obtain rfl := module_inj hns
        exact .converter (by decide)
      · obtain ⟨hns, rfl⟩ := Prod.mk.inj heq
        obtain rfl := module_inj hns
        -- the function for errors is named like the reader of an operation
        have herror : "_deserialize_error" = "_deserialize_" ++ "error" := by decide
        rw [herror]
        exact .converter (by decide)
  · obtain ⟨text, htext, heq⟩ := List.mem_map.1 hn
    obtain ⟨hns, rfl⟩ := Prod.mk.inj heq
    obtain rfl : authModule = sub := module_inj hns
    apply hown
    rcases List.mem_append.1 htext with htext | htext
    · obtain ⟨id, -, htext⟩ := List.mem_flatMap.1 htext
      obtain ⟨scheme, hfind, rfl⟩ := Option.map_eq_some_iff.1 (Option.mem_toList.1 htext)
      exact List.mem_cons_of_mem _ (List.mem_map.2 ⟨scheme, hschemes scheme (List.mem_of_find?_eq_some hfind), rfl⟩)
    · cases List.mem_singleton.1 htext
      exact List.mem_cons_self
  · obtain ⟨text, htext, heq⟩ := List.mem_map.1 hn
    obtain ⟨hns, rfl⟩ := Prod.mk.inj heq
    obtain rfl : configModule = sub := module_inj hns
    have hconfig : ∀ text ∈ ["Config", "Plugin"], (configModule, text) ∈ ownNames configModule := by decide
    exact hown (hconfig text htext)
  · rw [List.mem_singleton, clientClass_ns hcx] at hn
    obtain ⟨hns, rfl⟩ := Prod.mk.inj hn
    obtain rfl := module_inj hns
    obtain ⟨service, hk⟩ := hcx.serviceKind
    have hsym : cx.sym cx.service.id = serviceClient cx.package cx.service.id :=
      hcx.sym_plain hcx.service_member hcx.service hk rfl rfl
    rw [hsym]
    exact .given (by decide) (.client hcx.service hk)

/-! ### Files -/

/-- The files that every package has besides those of its modules. -/
def projectFiles : List Path := [⟨"pyproject.toml"⟩, ⟨"README.md"⟩]

/-- The file is empty or one that every package has, or its text is that of a draft. -/
def FileFrom (folder : Folder) (file : Path × String) : Prop :=
  file.2 = "" ∨ file.1 ∈ projectFiles ∨ ∃ entry ∈ folder.drafts, file.2 = entry.2.render

section Files

variable {folder : Folder} {files files' : Manifest}

theorem foldl_entries {β : Type} {write : Manifest → β → Manifest} {bs : List β}
    (hwrite : ∀ b ∈ bs, ∀ files, (∀ file ∈ files.entries, FileFrom folder file) →
      ∀ file ∈ (write files b).entries, FileFrom folder file)
    (h : ∀ file ∈ files.entries, FileFrom folder file) :
    ∀ file ∈ (bs.foldl write files).entries, FileFrom folder file := by
  induction bs generalizing files with
  | nil => exact h
  | cons b bs ih =>
    exact ih (fun b' hb' => hwrite b' (List.mem_cons_of_mem _ hb')) (hwrite b List.mem_cons_self files h)

theorem flush_entries (h : ∀ file ∈ files.entries, FileFrom folder file) :
    ∀ file ∈ (folder.flush files).entries, FileFrom folder file := by
  refine foldl_entries (fun entry hentry files hfiles file hfile => ?_) h
  obtain ⟨e, he, rfl⟩ := List.mem_map.1 hfile
  rcases Dictionary.mem_insert he with ⟨-, hvalue⟩ | he
  · exact .inr (.inr ⟨entry, hentry, hvalue⟩)
  · exact hfiles _ (List.mem_map.2 ⟨e, he, rfl⟩)

theorem addInitFiles_entries (h : ∀ file ∈ files.entries, FileFrom folder file) :
    ∀ file ∈ files.addInitFiles.entries, FileFrom folder file := by
  refine foldl_entries (fun dir _ files hfiles file hfile => ?_) h
  obtain ⟨e, he, rfl⟩ := List.mem_map.1 hfile
  rcases Dictionary.mem_insertNew he with rfl | he
  · exact .inl rfl
  · exact hfiles _ (List.mem_map.2 ⟨e, he, rfl⟩)

theorem addProjectFile_entries {info : ProjectInfo} {path : Path} {page : String} (hpath : path ∈ projectFiles)
    (hadd : addProjectFile info files path page = .ok files') (h : ∀ file ∈ files.entries, FileFrom folder file) :
    ∀ file ∈ files'.entries, FileFrom folder file := by
  unfold addProjectFile at hadd
  split at hadd
  · cases hadd
    exact h
  · rename_i hnone
    obtain ⟨text, -, hadd⟩ := bind_ok_iff.1 hadd
    cases hadd
    intro file hfile
    obtain ⟨e, he, rfl⟩ := List.mem_map.1 hfile
    have hperm : (Dictionary.insert (.ofPath path) text files.files).Perm _ :=
      Dictionary.insert_perm (Dictionary.compare_ne_of_not_has hnone)
    rcases List.mem_cons.1 (hperm.mem_iff.1 he) with rfl | he
    · exact .inr (.inl hpath)
    · exact h _ (List.mem_map.2 ⟨e, he, rfl⟩)

end Files

/-! ### Runs -/

section Runs

variable {m : Model} {settings : Settings} {run : Run} {client : Option Symbol} {files : Manifest}

/-- **Whatever a run defines in a module is a name that the module may have.** -/
theorem Run.holds_definedNames (hrun : run.Builtin settings) (hok : (run.plan {}).result = .ok client) {sub name : String}
    (hsub : sub ∈ submodules) (hn : (run.cx.package ++ "." ++ sub, name) ∈ run.definedNames) :
    run.cx.Holds sub (run.cx.package ++ "." ++ sub) name := by
  obtain ⟨h, rest, hnames, hrest⟩ := Run.definedNames_eq hrun hok
  rw [hnames, List.mem_append] at hn
  rcases hn with hn | hn
  · exact h.holds_typeNames hrun.standard hsub hn
  · obtain ⟨protocol, operations, resolution, hn⟩ := hrest _ hn
    exact holds_clientNames hrun.standard hrun.schemes hn

/-- A run that succeeds emits no shape of the prelude, whose schemas are in no file of the package. -/
theorem Run.not_prelude (hmade : run.Made m settings) (hrun : run.Builtin settings)
    (hok : (run.plan {}).result = .ok client) {shape : Shape} (he : run.cx.Emits shape) :
    shape.id.isPrelude = false := by
  have hcx := hrun.standard
  obtain ⟨h, rest, hnames, -⟩ := Run.definedNames_eq hrun hok
  have hdefined : schemaName run.cx shape.id ∈ run.definedNames := by
    rw [hnames, List.mem_append]
    exact .inl (schemaName_mem (.inr ⟨shape, he, rfl⟩))
  obtain ⟨e, hedit, hname⟩ := List.mem_flatMap.1 hdefined
  obtain ⟨text, -, heq⟩ := List.mem_map.1 hname
  obtain ⟨sub, hsub, hns, -⟩ := ((plan_conducts hmade {} Survey.tidy_empty).out e hedit).housed
  -- the schema is defined in a module of the package
  have hmodule : (schemaName run.cx shape.id).1 ∈ modules run.cx.package := by
    rw [← heq]
    exact List.mem_map.2 ⟨sub, hsub, hns.symm⟩
  exact (h.schema_own hcx (.inr ⟨shape, he, rfl⟩) hmodule).1

/-- The file at the path imports the name, and it defines it too or imports it from another module. -/
def Run.Clash (run : Run) (path : String) (draft : Draft) (name : String) : Prop :=
  ∃ module, draft.imports.Binds module name ∧
    (name ∈ run.definitionsIn path ∨ ∃ module', module' ≠ module ∧ draft.imports.Binds module' name)

/-- **A file of a run imports names that its module may have**, and none of them from its own module. -/
theorem Run.holds_imports (hmade : run.Made m settings) (hrun : run.Builtin settings) {package : String}
    {folder : Folder} (h : carryOut { package } run.plan = .ok (folder, client)) {path : String} {draft : Draft}
    (hfile : (path, draft) ∈ folder.drafts) : ∃ sub ∈ submodules, path = moduleFile run.cx.package sub ∧
      ∀ module name, draft.imports.Binds module name → run.cx.Holds sub module name ∧
        module ≠ run.cx.package ++ "." ++ sub := by
  obtain ⟨folder', happlied, hplan⟩ := bind_ok_iff.1 h
  obtain ⟨client', hok, heq⟩ := bind_ok_iff.1 hplan
  cases heq
  have hadmit := Run.edits_admit hrun hok fun shape he => Run.not_prelude hmade hrun hok he
  obtain ⟨⟨e, hedit, rfl, hns⟩, himports⟩ := Folder.applyAll_imports happlied hfile
  obtain ⟨sub, hsub, hmodule, hpath⟩ := ((plan_conducts hmade {} Survey.tidy_empty).out e hedit).housed
  refine ⟨sub, hsub, hpath, ?_⟩
  rintro module name ⟨n, htakes, rfl⟩
  obtain ⟨e', hedit', -, hns', s, hs, c, hc, hbuiltin, hne, rfl, rfl⟩ := himports module n htakes
  have hhome : draft.ns = run.cx.package ++ "." ++ sub := hns.symm.trans hmodule
  rw [hhome] at hns' hne
  refine ⟨?_, hne⟩
  exact hadmit e' hedit' s hs sub hsub hns' c hc hbuiltin (hns' ▸ hne)

/-- Generation carries out the plan of its run, and its files are those of the drafts. -/
theorem generate_files (hrun : Run.of [] m settings = .ok run) (hbuiltin : run.Builtin settings)
    (h : generate [] m settings = .ok files) : ∃ folder client,
      carryOut { package := settings.module } run.plan = .ok (folder, client) ∧
        ∀ file ∈ files.entries, FileFrom folder file := by
  obtain ⟨run', hrun', h⟩ := bind_ok_iff.1 h
  cases hrun.symm.trans hrun'
  obtain ⟨carried, hcarried, h⟩ := bind_ok_iff.1 h
  obtain ⟨folder, client⟩ := carried
  rw [hbuiltin.interceptors] at hcarried
  obtain ⟨customized, hcustomized, h⟩ := bind_ok_iff.1 h
  rw [hbuiltin.customizations] at hcustomized
  cases hcustomized
  obtain ⟨info, -, h⟩ := bind_ok_iff.1 h
  obtain ⟨files', hproject, h⟩ := bind_ok_iff.1 h
  have hflushed : ∀ file ∈ (folder.flush {}).addInitFiles.entries, FileFrom folder file :=
    addInitFiles_entries (flush_entries (by simp [Manifest.entries]))
  exact ⟨folder, client, hcarried, addProjectFile_entries (by simp [projectFiles]) h
    (addProjectFile_entries (by simp [projectFiles]) hproject hflushed)⟩

end Runs

/-- **When imports clash.** If a model names its members after the shapes that hold them, as models that are read
from documents do, then
1. generation succeeds only if the plan of its run can be carried out, and except for empty files and the project files
   it gives the text of the drafts that come of it;
2. such a draft is the file of one of the modules. A name that it imports, and also defines or imports from another
   module, is a coincidence in the model: it is given to a shape and may be in that module in every package, it is given
   to a type and to the client or a method, or it is the constant of a shape outside and of one inside of the
   prelude;
3. the names which may be in such a module in every package, and which a class can take, are the unreserved ones. -/
theorem clash_coincides {m : Model} (hm : m.NamesMembers) {settings : Settings} {run : Run}
    (hrun : Run.of [] m settings = .ok run) :
    (∀ files, generate [] m settings = .ok files → ∃ folder client,
      carryOut { package := settings.module } run.plan = .ok (folder, client) ∧
        ∀ file ∈ files.entries, FileFrom folder file) ∧
    (∀ folder client, carryOut { package := settings.module } run.plan = .ok (folder, client) →
      ∀ path draft, (path, draft) ∈ folder.drafts → ∃ sub ∈ submodules, path = moduleFile settings.module sub ∧
        ∀ name, run.Clash path draft name → run.cx.Coincides sub name) ∧
    ∀ name, ((∃ sub ∈ typeUsers, name ∈ fixedNames sub) ∧ ∃ shape, className shape = name) ↔
      name ∈ unreservedNames := by
  have hmade := Run.of_ok hrun
  have hbuiltin := Run.of_builtin hm hrun
  have hpackage : run.cx.package = settings.module := by rw [Context.package, (prepare_ok hmade.context).settings]
  refine ⟨fun files => generate_files hrun hbuiltin, ?_, fun name => mem_unreservedNames_iff.symm⟩
  intro folder client hcarried path draft hfile
  obtain ⟨sub, hsub, hpath, hholds⟩ := Run.holds_imports hmade hbuiltin hcarried hfile
  rw [← hpackage]
  refine ⟨sub, hsub, hpath, ?_⟩
  rintro name ⟨module, hbinds, hother⟩
  obtain ⟨himported, hforeign⟩ := hholds module name hbinds
  rcases hother with hdefined | ⟨module', hne, hbinds'⟩
  · obtain ⟨_, -, hplan⟩ := bind_ok_iff.1 hcarried
    obtain ⟨client', hok, -⟩ := bind_ok_iff.1 hplan
    rw [hpath, definitionsIn_eq hmade sub hsub] at hdefined
    obtain ⟨⟨ns, text⟩, hname, rfl⟩ := List.mem_map.1 hdefined
    obtain ⟨hname, hns⟩ := List.mem_filter.1 hname
    obtain rfl := eq_of_beq hns
    exact himported.coincides hsub (Run.holds_definedNames hbuiltin hok hsub hname) hforeign
  · exact himported.coincides hsub (hholds module' name hbinds').1 hne.symm

/-- A structure that is called like an exception which every models module imports. -/
def exceptionShape : Shape where
  id := { ns := "a", name := "SmithyException" }
  kind := .struct []

/-- A service that raises it. -/
def exceptionService : Shape where
  id := { ns := "a", name := "W" }
  kind := .service { errors := [exceptionShape.id] }

def exceptionModel : Model where
  shapes := [exceptionService, exceptionShape]
  distinct := by decide

def exceptionSettings : Settings := { sampleSettings with service := exceptionService.id }

/-- The run for the service. -/
def exceptionRun : Run where
  integrations := [httpAuth]
  cx := {
    model := exceptionModel
    settings := exceptionSettings
    provider := { package := "p" }
    order := ⟨[exceptionShape.id, exceptionService.id], []⟩
    service := exceptionService }
  plugins := httpAuth.plugins
  protocol := none

/-- Does the file of a run at the path define the name, and import it from the module? -/
def importsOwn (run : Run) (path module name : String) : Bool :=
  (run.definitionsIn path).contains name &&
    (carryOut { package := run.cx.package } run.plan).toOption.any fun result => result.1.drafts.any fun file =>
      file.1 == path && file.2.imports.names.any fun entry => entry.1 == module && entry.2.contains { name }

theorem clash_of_importsOwn {run : Run} {path module name : String} (h : importsOwn run path module name = true) :
    ∃ folder client draft, carryOut { package := run.cx.package } run.plan = .ok (folder, client) ∧
      (path, draft) ∈ folder.drafts ∧ run.Clash path draft name := by
  obtain ⟨hdefined, hcarried⟩ := Bool.and_eq_true_iff.1 h
  cases hresult : carryOut { package := run.cx.package } run.plan with
  | error e =>
    rw [hresult] at hcarried
    cases hcarried
  | ok result =>
    rw [hresult] at hcarried
    obtain ⟨file, hfile, hdraft⟩ := List.any_eq_true.1 hcarried
    obtain ⟨hpath, himports⟩ := Bool.and_eq_true_iff.1 hdraft
    obtain rfl := eq_of_beq hpath
    obtain ⟨entry, hentry, hnames⟩ := List.any_eq_true.1 himports
    obtain ⟨-, hname⟩ := Bool.and_eq_true_iff.1 hnames
    have hbinds : file.2.imports.Binds entry.1 name := ⟨_, ⟨entry.2, hentry, List.contains_iff_mem.1 hname⟩, rfl⟩
    exact ⟨result.1, result.2, file.2, rfl, hfile, entry.1, hbinds, .inl (List.contains_iff_mem.1 hdefined)⟩

set_option maxRecDepth 100000 in
/-- **Imports do clash**: the models module imports the exception, and defines the class of the structure. -/
theorem exceptionRun_clash : exceptionModel.NamesMembers ∧
    Run.of [] exceptionModel exceptionSettings = .ok exceptionRun ∧
    ∃ folder client draft, carryOut { package := exceptionSettings.module } exceptionRun.plan = .ok (folder, client) ∧
      ("p/models.py", draft) ∈ folder.drafts ∧ exceptionRun.Clash "p/models.py" draft "SmithyException" ∧
      exceptionRun.cx.Coincides modelsModule "SmithyException" := by
  have hm : exceptionModel.NamesMembers := by
    unfold Model.NamesMembers
    decide
  have hrun : Run.of [] exceptionModel exceptionSettings = .ok exceptionRun := by cbv
  have himports : importsOwn exceptionRun "p/models.py" "smithy_core.exceptions" "SmithyException" = true := by
    decide +kernel
  obtain ⟨folder, client, draft, hcarried, hfile, hclash⟩ := clash_of_importsOwn himports
  refine ⟨hm, hrun, folder, client, draft, hcarried, hfile, hclash, ?_⟩
  obtain ⟨sub, hsub, hpath, hcoincides⟩ :=
    (clash_coincides hm hrun).2.1 folder client hcarried "p/models.py" draft hfile
  have hmodels : "p/models.py" = moduleFile exceptionSettings.module modelsModule := by decide +kernel
  obtain rfl : sub = modelsModule := moduleFile_inj hsub (by simp [submodules]) (hpath.symm.trans hmodels)
  exact hcoincides _ hclash

end Package

end ClientGen
