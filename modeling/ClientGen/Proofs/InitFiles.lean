import ClientGen.Proofs.Dictionary
import ClientGen.Proofs.PathComponents

/-!
# Init files

Every directory above a Python file gets an empty file that makes it a package, unless it has one. These files are
Python files themselves, but the directories above them are above the files that they were added for, so nothing is left
to add.

* `Manifest.after_ordered`: the files stay in the order of their paths, by every call.
* `Manifest.of_mem_addInitFiles`, `Manifest.exists_init`: which files there are afterwards.
* `Manifest.addInitFiles_idempotent`: a second time changes nothing.
* `Manifest.addInitFiles_complete`: all this for the manifests that come about by any calls.
-/

namespace ClientGen

namespace Manifest

/-- A call that changes a manifest. -/
inductive Call where
  | write (path : Path) (contents : String)
  | addInitFiles

def Call.apply (m : Manifest) : Call → Manifest
  | .write path contents => m.write path contents
  | .addInitFiles => m.addInitFiles

/-- The manifest after calls on the empty one. -/
def after (calls : List Call) : Manifest := calls.foldl Call.apply {}

/-- The files are in the order of their paths, each once. -/
def Ordered (m : Manifest) : Prop := Dictionary.Ascending m.files

variable {m : Manifest}

theorem Ordered.foldl_addInit (dirs : List Path) : ∀ {m : Manifest}, m.Ordered → (dirs.foldl addInit m).Ordered := by
  induction dirs with
  | nil => exact id
  | cons dir dirs ih => exact fun h => ih (Dictionary.insertNew_ascending _ _ h)

theorem Ordered.apply (h : m.Ordered) (call : Call) : (call.apply m).Ordered := by
  cases call with
  | write path contents => exact Dictionary.insert_ascending _ _ h
  | addInitFiles => exact h.foldl_addInit _

theorem after_ordered (calls : List Call) : (after calls).Ordered := by
  have hrun : ∀ (calls : List Call) {m : Manifest}, m.Ordered → (calls.foldl Call.apply m).Ordered := by
    intro calls
    induction calls with
    | nil => exact id
    | cons call calls ih => exact fun h => ih (h.apply call)
  exact hrun calls List.Pairwise.nil

theorem Ordered.components_nodup (h : m.Ordered) : (m.paths.map Path.components).Nodup := by
  unfold paths
  rw [List.map_map, List.Nodup, List.pairwise_map]
  refine h.imp fun {a b} hlt heq => ?_
  have hsame : compare a.1 b.1 = .eq := Location.compare_eq_iff.2 heq
  rw [hlt] at hsame
  cases hsame

/-! ### The files that are added -/

/-- The components of the file that makes a directory a package. -/
def initOf (dir : List Path.Component) : List Path.Component := dir ++ [.name "__init__.py"]

theorem components_init {dir : Path} (h : dir.components ≠ []) :
    (dir.join initName).components = initOf dir.components :=
  Path.components_join (fun hempty => h (Path.components_eq_nil_iff.2 hempty)) (by decide) (by decide)

theorem exists_mem_pythonDirectories {dir : List Path.Component} :
    (∃ d ∈ m.pythonDirectories, d.components = dir) ↔ ∃ path ∈ m.paths, path.IsPython ∧ Path.Above dir path := by
  unfold pythonDirectories
  simp only [List.mem_eraseDups, List.mem_flatMap, List.mem_filter, Path.isPython_iff]
  constructor
  · rintro ⟨d, ⟨path, ⟨hpath, hpython⟩, hd⟩, hdir⟩
    exact ⟨path, hpath, hpython, Path.mem_ancestors.1 ⟨d, hd, hdir⟩⟩
  · rintro ⟨path, hpath, hpython, habove⟩
    obtain ⟨d, hd, hdir⟩ := Path.mem_ancestors.2 habove
    exact ⟨d, ⟨path, ⟨hpath, hpython⟩, hd⟩, hdir⟩

theorem mem_foldl_addInit {e : Location × String} (dirs : List Path) : ∀ {m : Manifest}, e ∈ m.files →
    e ∈ (dirs.foldl addInit m).files := by
  induction dirs with
  | nil => exact id
  | cons dir dirs ih => exact fun h => ih (Dictionary.mem_insertNew_of_mem h)

theorem of_mem_foldl_addInit {e : Location × String} (dirs : List Path) : ∀ {m : Manifest},
    e ∈ (dirs.foldl addInit m).files → e ∈ m.files ∨ ∃ dir ∈ dirs, e = (.ofPath (dir.join initName), "") := by
  induction dirs with
  | nil => exact .inl
  | cons dir dirs ih =>
    intro m h
    rcases ih h with h | ⟨dir', hdir', rfl⟩
    · rcases Dictionary.mem_insertNew h with rfl | h
      · exact .inr ⟨dir, List.mem_cons_self, rfl⟩
      · exact .inl h
    · exact .inr ⟨dir', List.mem_cons_of_mem _ hdir', rfl⟩

theorem exists_mem_foldl_addInit {dir : Path} {dirs : List Path} (h : dir ∈ dirs) (m : Manifest) :
    ∃ e ∈ (dirs.foldl addInit m).files, compare (Location.ofPath (dir.join initName)) e.1 = .eq := by
  -- the file is there after the directory's own turn, and stays
  obtain ⟨done, rest, rfl⟩ := List.append_of_mem h
  rw [List.foldl_append, List.foldl_cons]
  obtain ⟨e, he, hkey⟩ :=
    Dictionary.exists_mem_insertNew (.ofPath (dir.join initName)) "" (done.foldl addInit m).files
  exact ⟨e, mem_foldl_addInit rest he, hkey⟩

/-- **The files afterwards**: those before, and empty ones in directories above Python files. -/
theorem of_mem_addInitFiles {e : Location × String} (h : e ∈ m.addInitFiles.files) :
    e ∈ m.files ∨ e.2 = "" ∧ ∃ path ∈ m.paths, path.IsPython ∧ ∃ dir, Path.Above dir path ∧
      e.1.path.components = initOf dir := by
  rcases of_mem_foldl_addInit _ h with h | ⟨d, hd, rfl⟩
  · exact .inl h
  · obtain ⟨path, hpath, hpython, habove⟩ := exists_mem_pythonDirectories.1 ⟨d, hd, rfl⟩
    exact .inr ⟨rfl, path, hpath, hpython, d.components, habove, components_init habove.nonempty⟩

theorem exists_init_of_mem {path : Path} {dir : List Path.Component} (hpath : path ∈ m.paths) (hpython : path.IsPython)
    (habove : Path.Above dir path) : ∃ e ∈ m.addInitFiles.files, e.1.path.components = initOf dir := by
  obtain ⟨d, hd, rfl⟩ := exists_mem_pythonDirectories.2 ⟨path, hpath, hpython, habove⟩
  obtain ⟨e, he, hkey⟩ := exists_mem_foldl_addInit hd m
  exact ⟨e, he, (Location.compare_eq_iff.1 hkey).symm.trans (components_init habove.nonempty)⟩

theorem mem_paths {path : Path} : path ∈ m.paths ↔ ∃ e ∈ m.files, e.1.path = path := by
  unfold paths
  rw [List.mem_map]

/-- **Afterwards** this holds of the added files too: what is above them is above the files that they were added for. -/
theorem exists_init {path : Path} {dir : List Path.Component} (hpath : path ∈ m.addInitFiles.paths)
    (hpython : path.IsPython) (habove : Path.Above dir path) :
    ∃ e ∈ m.addInitFiles.files, e.1.path.components = initOf dir := by
  obtain ⟨e, he, rfl⟩ := mem_paths.1 hpath
  rcases of_mem_addInitFiles he with he | ⟨-, path, hpath, hpython, dir', habove', hcomponents⟩
  · exact exists_init_of_mem (mem_paths.2 ⟨e, he, rfl⟩) hpython habove
  · -- an added file stands in a directory above `path`, so what is above the one is above the other
    obtain ⟨hne, hbegins⟩ := (Path.above_iff_of_concat hcomponents).1 habove
    refine exists_init_of_mem hpath hpython ⟨hne, hbegins.trans habove'.begins, ?_⟩
    rintro rfl
    exact habove'.proper (habove'.begins.eq_of_length_le hbegins.length_le)

theorem foldl_addInit_eq (hm : m.Ordered) (dirs : List Path)
    (h : ∀ dir ∈ dirs, ∃ e ∈ m.files, compare (Location.ofPath (dir.join initName)) e.1 = .eq) :
    dirs.foldl addInit m = m := by
  induction dirs with
  | nil => rfl
  | cons dir dirs ih =>
    obtain ⟨e, he, hkey⟩ := h dir List.mem_cons_self
    have hdir : m.addInit dir = m := congrArg Manifest.mk (Dictionary.insertNew_of_mem hm he hkey)
    rw [List.foldl_cons, hdir]
    exact ih fun d hd => h d (List.mem_cons_of_mem _ hd)

theorem addInitFiles_idempotent (hm : m.Ordered) : m.addInitFiles.addInitFiles = m.addInitFiles := by
  refine foldl_addInit_eq (hm.foldl_addInit _) _ fun d hd => ?_
  obtain ⟨path, hpath, hpython, habove⟩ := exists_mem_pythonDirectories.1 ⟨d, hd, rfl⟩
  obtain ⟨e, he, hcomponents⟩ := exists_init hpath hpython habove
  refine ⟨e, he, Location.compare_eq_iff.2 ?_⟩
  rw [hcomponents]
  exact components_init habove.nonempty

/-- **Init files.** For every manifest that calls bring about, once the init files are added,
1. no two files have the same components;
2. every directory above a Python file, those that were added among them, has a file `__init__.py`;
3. every file that was there is there, with its contents and the spelling of its path;
4. every other file is empty and is such a file `__init__.py`, in a directory above a Python file that was there;
5. adding them a second time changes nothing. -/
theorem addInitFiles_complete (calls : List Call) :
    let before := after calls
    let files := before.addInitFiles
    (files.paths.map Path.components).Nodup ∧
    (∀ path ∈ files.paths, path.IsPython → ∀ dir, Path.Above dir path →
      ∃ init ∈ files.paths, init.components = dir ++ [.name "__init__.py"]) ∧
    (∀ file ∈ before.entries, file ∈ files.entries) ∧
    (∀ file ∈ files.entries, file ∉ before.entries → file.2 = "" ∧ ∃ path ∈ before.paths, path.IsPython ∧
      ∃ dir, Path.Above dir path ∧ file.1.components = dir ++ [.name "__init__.py"]) ∧
    files.addInitFiles = files := by
  intro before files
  have hbefore : before.Ordered := after_ordered calls
  refine ⟨(hbefore.apply .addInitFiles).components_nodup, fun path hpath hpython dir habove => ?_, fun file hfile => ?_,
    fun file hfile hnew => ?_, addInitFiles_idempotent hbefore⟩
  · obtain ⟨e, he, hcomponents⟩ := exists_init hpath hpython habove
    exact ⟨e.1.path, mem_paths.2 ⟨e, he, rfl⟩, hcomponents⟩
  · obtain ⟨e, he, rfl⟩ := List.mem_map.1 hfile
    exact List.mem_map.2 ⟨e, mem_foldl_addInit _ he, rfl⟩
  · obtain ⟨e, he, rfl⟩ := List.mem_map.1 hfile
    exact (of_mem_addInitFiles he).resolve_left fun hold => hnew (List.mem_map.2 ⟨e, hold, rfl⟩)

/-- The directory has such a file under another spelling, which stays. -/
example : ((after [.write ⟨"./a/b/m.py"⟩ "x", .write ⟨"./a//__init__.py"⟩ "y"]).addInitFiles.entries.map fun e =>
    (e.1.text, e.2)) =
    [("./__init__.py", ""), ("./a//__init__.py", "y"), ("./a/b/__init__.py", ""), ("./a/b/m.py", "x")] := by
  with_unfolding_all rfl

end Manifest

end ClientGen
