import ClientGen.Draft.Basic
import ClientGen.Proofs.Dictionary

/-!
# The imports at the head of a file

A file records what it imports, one thing at a time, and keeps the records in order.

* `Imports.records`: all that is recorded. `Imports.mem_record`: a further record adds itself and nothing else.
* `Imports.Ordered.heads`: the statements have each record once, and each stands in the group of its module.
-/

namespace ClientGen

/-! ### Records -/

theorem ImportedName.compare_eq_lex : (compare : ImportedName → ImportedName → Ordering) =
    compareLex (compareOn ImportedName.name) (compareOn ImportedName.localName) := by
  funext a b
  obtain ⟨name, localName⟩ := a
  obtain ⟨name', localName'⟩ := b
  show (compare name name').then ((compare localName localName').then .eq) = _
  rw [Ordering.then_eq]
  rfl

instance ImportedName.transOrd : Std.TransOrd ImportedName := by
  have h : Std.TransCmp (compareLex (compareOn ImportedName.name) (compareOn ImportedName.localName)) := inferInstance
  rwa [← ImportedName.compare_eq_lex] at h

instance ImportedName.lawfulEqOrd : Std.LawfulEqOrd ImportedName where
  eq_of_compare {a b} h := by
    rw [ImportedName.compare_eq_lex, compareLex_eq_eq] at h
    obtain ⟨hname, hlocal⟩ := h
    simp only [compareOn, Std.LawfulEqOrd.compare_eq_iff_eq] at hname hlocal
    cases a
    cases b
    cases hname
    cases hlocal
    rfl

/-- What a file imports: a module, or a name of one. -/
inductive ImportRecord where
  | whole (module : String)
  | name (module : String) (n : ImportedName)
deriving DecidableEq

namespace Imports

def record (i : Imports) : ImportRecord → Imports
  | .whole module => i.addModule module
  | .name module n => i.add module n

def records (i : Imports) : List ImportRecord :=
  i.modules.map .whole ++ i.names.flatMap fun e => e.2.map (.name e.1)

/-- Modules and names stand in order, and a module that names are taken from has one. -/
structure Ordered (i : Imports) : Prop where
  modules : i.modules.Pairwise fun a b => compare a b = .lt
  names : Dictionary.Ascending i.names
  each : ∀ e ∈ i.names, e.2 ≠ [] ∧ e.2.Pairwise fun a b => compare a b = .lt

theorem ordered_empty : Ordered {} := ⟨.nil, .nil, fun _ he => absurd he List.not_mem_nil⟩

variable {i i' : Imports}

theorem whole_mem_records {module : String} : .whole module ∈ i.records ↔ module ∈ i.modules := by
  simp [records]

/-- The names that are taken from a module, in order. -/
def namesOf (i : Imports) (module : String) : List ImportedName := (Dictionary.get? module i.names).getD []

theorem name_mem_records (h : i.Ordered) {module : String} {n : ImportedName} :
    .name module n ∈ i.records ↔ n ∈ i.namesOf module := by
  have hentries : .name module n ∈ i.records ↔ ∃ names, (module, names) ∈ i.names ∧ n ∈ names := by simp [records]
  rw [hentries, namesOf]
  simp only [← Dictionary.get?_eq_some_iff h.names]
  cases Dictionary.get? module i.names with
  | none => simp
  | some names => simp

theorem Ordered.namesOf (h : i.Ordered) (module : String) :
    (i.namesOf module).Pairwise fun a b => compare a b = .lt := by
  unfold Imports.namesOf
  cases hget : Dictionary.get? module i.names with
  | none => exact .nil
  | some names => exact (h.each _ (Dictionary.mem_of_get? hget)).2

theorem Ordered.get?_eq (h : i.Ordered) (module : String) :
    Dictionary.get? module i.names = if i.namesOf module = [] then none else some (i.namesOf module) := by
  unfold Imports.namesOf
  cases hget : Dictionary.get? module i.names with
  | none => rfl
  | some names => exact (if_neg (h.each _ (Dictionary.mem_of_get? hget)).1).symm

theorem namesOf_add (i : Imports) (module module' : String) (n : ImportedName) :
    (i.add module n).namesOf module' =
      if module' = module then insertSorted n (i.namesOf module) else i.namesOf module' := by
  unfold namesOf add
  dsimp only
  rw [Dictionary.get?_insert]
  by_cases h : module' = module
  · rw [if_pos (Std.LawfulEqOrd.compare_eq_iff_eq.2 h), if_pos h]
    rfl
  · rw [if_neg (fun heq => h (Std.LawfulEqOrd.eq_of_compare heq)), if_neg h]

theorem Ordered.record (h : i.Ordered) (r : ImportRecord) : (i.record r).Ordered := by
  cases r with
  | whole module => exact ⟨insertSorted_ascending module h.modules, h.names, h.each⟩
  | name module n =>
    refine ⟨h.modules, Dictionary.insert_ascending _ _ h.names, fun e he => ?_⟩
    rcases Dictionary.mem_insert_lawful he with rfl | he
    · exact ⟨List.ne_nil_of_mem (mem_insertSorted_iff.2 (.inl rfl)), insertSorted_ascending n (h.namesOf module)⟩
    · exact h.each e he

/-- **A further record adds itself and nothing else.** -/
theorem mem_record (h : i.Ordered) {r r' : ImportRecord} : r ∈ (i.record r').records ↔ r = r' ∨ r ∈ i.records := by
  cases r' with
  | whole module =>
    cases r with
    | whole module' =>
      rw [whole_mem_records, whole_mem_records, ImportRecord.whole.injEq]
      exact mem_insertSorted_iff
    | name module' n =>
      rw [name_mem_records (h.record _), name_mem_records h]
      simp [record, addModule, namesOf]
  | name module n =>
    cases r with
    | whole module' =>
      rw [whole_mem_records, whole_mem_records]
      simp [record, add]
    | name module' n' =>
      rw [name_mem_records (h.record _), name_mem_records h, record, namesOf_add, ImportRecord.name.injEq]
      by_cases hsame : module' = module
      · rw [if_pos hsame, mem_insertSorted_iff, hsame]
        simp
      · simp [hsame]

theorem Ordered.recordAll (h : i.Ordered) (rs : List ImportRecord) : (rs.foldl Imports.record i).Ordered ∧
    ∀ r, r ∈ (rs.foldl Imports.record i).records ↔ r ∈ rs ∨ r ∈ i.records := by
  induction rs generalizing i with
  | nil => exact ⟨h, fun r => by simp⟩
  | cons first rest ih =>
    obtain ⟨hordered, hrecords⟩ := ih (h.record first)
    refine ⟨hordered, fun r => ?_⟩
    rw [List.foldl_cons, hrecords, mem_record h, List.mem_cons]
    tauto

/-- **Imports in order are determined by the set of their records.** -/
theorem Ordered.ext (h : i.Ordered) (h' : i'.Ordered) (hrecords : ∀ r, r ∈ i.records ↔ r ∈ i'.records) : i = i' := by
  -- lists that ascend are equal if they have the same elements, the modules and then the names of each
  have hmodules : i.modules = i'.modules := by
    refine ascending_ext id h.modules h'.modules fun module => ?_
    rw [← whole_mem_records, ← whole_mem_records, hrecords]
  have hnamesOf : ∀ module, i.namesOf module = i'.namesOf module := fun module => by
    refine ascending_ext id (h.namesOf module) (h'.namesOf module) fun n => ?_
    rw [← name_mem_records h, ← name_mem_records h', hrecords]
  have hnames : i.names = i'.names := h.names.ext h'.names fun module => by
    rw [h.get?_eq, h'.get?_eq, hnamesOf]
  cases i
  cases i'
  cases hmodules
  cases hnames
  rfl

theorem Ordered.nodup (h : i.Ordered) : i.records.Nodup := by
  have hmodules : (i.modules.map ImportRecord.whole).Nodup :=
    (ascending_nodup id h.modules).map fun _ _ => ImportRecord.whole.inj
  have hnames : (i.names.flatMap fun e => e.2.map (ImportRecord.name e.1)).Nodup := by
    refine List.nodup_flatMap.2 ⟨fun e he => ?_, h.names.imp fun {a b} hlt r ha hb => ?_⟩
    · exact (ascending_nodup id (h.each e he).2).map fun _ _ heq => (ImportRecord.name.inj heq).2
    · obtain ⟨n, -, rfl⟩ := List.mem_map.1 ha
      obtain ⟨n', -, heq⟩ := List.mem_map.1 hb
      rw [(ImportRecord.name.inj heq).1, Std.ReflOrd.compare_self] at hlt
      cases hlt
  refine hmodules.append hnames fun r hr hr' => ?_
  obtain ⟨module, -, rfl⟩ := List.mem_map.1 hr
  simp at hr'

end Imports

/-! ### Statements -/

inductive ImportStatement where
  | whole (module : String)
  | names (module : String) (names : List ImportedName)
deriving DecidableEq

namespace ImportStatement

def module : ImportStatement → String
  | whole module => module
  | names module _ => module

def text : ImportStatement → String
  | whole module => "import " ++ module
  | names module ns => "from " ++ module ++ " import " ++ ", ".intercalate (ns.map Imports.ImportedName.text)

def records : ImportStatement → List ImportRecord
  | whole module => [.whole module]
  | names module ns => ns.map (.name module)

end ImportStatement

namespace Imports

variable {i : Imports}

def statementList (i : Imports) : List ImportStatement :=
  i.modules.map .whole ++ i.names.map fun e => .names e.1 e.2

theorem statements_eq (i : Imports) : i.statements = i.statementList.map fun s => (s.module, s.text) := by
  simp [statements, statementList, ImportStatement.module, ImportStatement.text, Function.comp_def]

theorem records_statementList (i : Imports) : i.statementList.flatMap ImportStatement.records = i.records := by
  simp [statementList, records, List.flatMap_append, List.flatMap_map, ImportStatement.records, ← List.map_eq_flatMap]

/-- The statements at the head of a file, in their groups. -/
def layout (i : Imports) (package : String) : List (Group × List ImportStatement) :=
  ([Group.standard, .other, .own].map fun g => (g, i.statementList.filter fun s => group package s.module == g)).filter
    fun block => !block.2.isEmpty

def layoutText (blocks : List (Group × List ImportStatement)) : String :=
  "\n\n".intercalate (blocks.map fun block => "\n".intercalate (block.2.map ImportStatement.text))

theorem text_eq (i : Imports) (package : String) : i.text package = layoutText (i.layout package) := by
  have hgroup : ∀ g, (i.statements.filter fun s => group package s.1 == g).map Prod.snd =
      (i.statementList.filter fun s => group package s.module == g).map ImportStatement.text := fun g => by
    simp [statements_eq, List.filter_map, Function.comp_def]
  simp only [text, layoutText, layout, hgroup, List.filter_map, List.map_map]
  simp [Function.comp_def]

/-- The statements at the head of a file have each of the records once, and each stands in the group of its module. -/
structure Heads (package : String) (records : List ImportRecord) (blocks : List (Group × List ImportStatement)) :
    Prop where
  groups : (blocks.map Prod.fst).Sublist [.standard, .other, .own]
  grouped : ∀ block ∈ blocks, block.2 ≠ [] ∧ ∀ s ∈ block.2, group package s.module = block.1
  once : (blocks.flatMap fun block => block.2.flatMap ImportStatement.records).Nodup
  complete : ∀ r, r ∈ (blocks.flatMap fun block => block.2.flatMap ImportStatement.records) ↔ r ∈ records

theorem Heads.congr {package : String} {rs rs' : List ImportRecord} {blocks : List (Group × List ImportStatement)}
    (h : Heads package rs blocks) (hsame : ∀ r, r ∈ rs ↔ r ∈ rs') : Heads package rs' blocks :=
  ⟨h.groups, h.grouped, h.once, fun r => (h.complete r).trans (hsame r)⟩

theorem groups_perm (package : String) (l : List ImportStatement) :
    ([Group.standard, .other, .own].flatMap fun g => l.filter fun s => group package s.module == g).Perm l := by
  induction l with
  | nil => exact .refl []
  | cons s l ih =>
    simp only [List.flatMap_cons, List.flatMap_nil, List.append_nil] at ih ⊢
    cases hg : group package s.module with
    | standard => simpa [List.filter_cons, hg] using ih
    | other =>
      simp only [List.filter_cons, hg]
      exact List.perm_middle.trans (ih.cons s)
    | own =>
      simp only [List.filter_cons, hg]
      rw [← List.append_assoc] at ih ⊢
      exact List.perm_middle.trans (ih.cons s)

theorem layout_perm (i : Imports) (package : String) : ((i.layout package).flatMap Prod.snd).Perm i.statementList := by
  have hempty : ∀ blocks : List (Group × List ImportStatement),
      (blocks.filter fun block => !block.2.isEmpty).flatMap Prod.snd = blocks.flatMap Prod.snd := by
    intro blocks
    induction blocks with
    | nil => rfl
    | cons block rest ih => cases hb : block.2 <;> simp [hb, ih]
  rw [layout, hempty, List.flatMap_map]
  exact groups_perm package i.statementList

/-- **The head of a file.** -/
theorem Ordered.heads (h : i.Ordered) (package : String) : Heads package i.records (i.layout package) := by
  have hrecords : ((i.layout package).flatMap fun block => block.2.flatMap ImportStatement.records).Perm i.records := by
    rw [← records_statementList, ← List.flatMap_assoc]
    exact (i.layout_perm package).flatMap_right _
  refine ⟨?_, fun block hblock => ?_, hrecords.nodup_iff.2 h.nodup, fun r => hrecords.mem_iff⟩
  · exact (List.filter_sublist.map Prod.fst).trans (by simp)
  · obtain ⟨hmem, hne⟩ := List.mem_filter.1 hblock
    obtain ⟨g, -, rfl⟩ := List.mem_map.1 hmem
    refine ⟨by simpa using hne, fun s hs => ?_⟩
    exact beq_iff_eq.1 (List.mem_filter.1 hs).2

theorem intercalate_ne_empty {sep first : String} (h : first ≠ "") (rest : List String) :
    sep.intercalate (first :: rest) ≠ "" := by
  cases rest with
  | nil => rwa [String.intercalate_singleton]
  | cons next rest =>
    rw [String.intercalate_cons_cons]
    simp [h]

theorem layoutText_ne_empty {blocks : List (Group × List ImportStatement)} (h : ∀ block ∈ blocks, block.2 ≠ [])
    (hne : blocks ≠ []) : layoutText blocks ≠ "" := by
  obtain ⟨block, rest, rfl⟩ := List.exists_cons_of_ne_nil hne
  obtain ⟨s, statements, hs⟩ := List.exists_cons_of_ne_nil (h block List.mem_cons_self)
  have htext : s.text ≠ "" := by cases s <;> simp [ImportStatement.text]
  refine intercalate_ne_empty ?_ _
  dsimp only
  rw [hs]
  exact intercalate_ne_empty htext _

/-- The head of a file, with the empty lines around it. -/
def headText (blocks : List (Group × List ImportStatement)) : String :=
  if blocks = [] then "" else "\n" ++ layoutText blocks ++ "\n"

end Imports

namespace Draft

/-- The text of a file after its imports. -/
def trimmed (d : Draft) : String :=
  let isLineEnd (c : Char) := c == '\n'
  let body := Text.dropEndWhile isLineEnd (d.body.toList.dropWhile isLineEnd)
  if body.isEmpty then "" else "\n\n" ++ String.ofList body ++ "\n"

theorem render_eq (d : Draft) :
    d.render = marker ++ "\n" ++ Imports.headText (d.imports.layout d.package) ++ d.trimmed := by
  have hhead : (if (d.imports.text d.package).isEmpty then "" else "\n" ++ d.imports.text d.package ++ "\n") =
      Imports.headText (d.imports.layout d.package) := by
    rw [Imports.text_eq, Imports.headText]
    by_cases hnone : d.imports.layout d.package = []
    · rw [hnone]
      rfl
    · have hblocks : ∀ block ∈ d.imports.layout d.package, block.2 ≠ [] := fun block hblock => by
        simpa using (List.mem_filter.1 hblock).2
      have htext := Imports.layoutText_ne_empty hblocks hnone
      rw [if_neg (fun hempty => htext (String.isEmpty_iff.1 hempty)), if_neg hnone]
  unfold render
  rw [← hhead]
  rfl

end Draft

end ClientGen
