import ClientGen.Proofs.ClientMentions

/-!
# The modules of a package, and the names that are not in them

A package consists of a fixed list of modules below one that has its name. A symbol of one of these modules
is declared if the module defines its name; all others come from elsewhere.

* `library_foreign`: nothing that generated code imports from elsewhere is in a module of the package,
  whatever the package is called.
-/

namespace ClientGen

namespace Package

open Naming

/-- The modules that packages consist of, below the package itself. -/
def submodules : List String :=
  [modelsModule, schemasModule, clientModule, configModule, authModule, serializeModule, deserializeModule]

/-- The modules of a package. -/
def modules (package : String) : List String := submodules.map fun sub => package ++ "." ++ sub

/-- The module is in no package: what follows its first dot is none of the modules that packages have. -/
def isForeign (ns : String) : Bool :=
  match Text.cut? '.' ns.toList with
  | some (_, rest) => !submodules.contains (String.ofList rest)
  | none => true

theorem cut?_append {sep : Char} {before : List Char} (h : sep ∉ before) (rest : List Char) :
    Text.cut? sep (before ++ sep :: rest) = some (before, rest) := by
  induction before with
  | nil => simp [Text.cut?]
  | cons c before ih =>
    rw [List.mem_cons, not_or] at h
    simp [Text.cut?, Ne.symm h.1, ih h.2]

/-- Only one package can have the module, and only as one of its own. -/
theorem cut?_of_mem_modules {package ns : String} (hp : '.' ∉ package.toList) (h : ns ∈ modules package) :
    ∃ sub ∈ submodules, Text.cut? '.' ns.toList = some (package.toList, sub.toList) := by
  obtain ⟨sub, hsub, rfl⟩ := List.mem_map.1 h
  refine ⟨sub, hsub, ?_⟩
  have hlist : (package ++ "." ++ sub).toList = package.toList ++ '.' :: sub.toList := by simp
  rw [hlist, cut?_append hp]

theorem not_mem_modules {package ns : String} (hp : '.' ∉ package.toList) (h : isForeign ns = true) :
    ns ∉ modules package := by
  intro hmem
  obtain ⟨sub, hsub, hcut⟩ := cut?_of_mem_modules hp hmem
  unfold isForeign at h
  rw [hcut] at h
  simp [hsub] at h

theorem module_inj {package sub sub' : String} (h : package ++ "." ++ sub = package ++ "." ++ sub') : sub = sub' := by
  have hlist := congrArg String.toList h
  simp only [String.toList_append, List.append_cancel_left_eq] at hlist
  exact String.toList_inj.1 hlist

end Package

namespace Symbol

open Package

theorem closure_eq (s : Symbol) : s.closure = s :: closure.closures s.references := by
  cases s
  rw [closure]

/-- **All that a mention of the symbol needs from the package is defined in it**: the names of the symbol and
of the symbols that it is made of, as far as they are in modules of the package. -/
def DeclaredIn (package : String) (names : List (String × String)) (s : Symbol) : Prop :=
  ∀ q ∈ s.closure, q.ns ∈ modules package → (q.ns, q.name) ∈ names

variable {package : String} {names : List (String × String)} {s : Symbol}

theorem declaredIn_iff (h : s.references = []) :
    s.DeclaredIn package names ↔ (s.ns ∈ modules package → (s.ns, s.name) ∈ names) := by
  unfold DeclaredIn
  rw [closure_eq, h]
  simp [closure.closures]

theorem declaredIn_of_foreign (hp : '.' ∉ package.toList) (hr : s.references = []) (h : isForeign s.ns = true) :
    s.DeclaredIn package names :=
  (declaredIn_iff hr).2 fun hmem => absurd hmem (not_mem_modules hp h)

theorem declaredIn_module {sub : String} (hr : s.references = []) (hsub : sub ∈ submodules)
    (hns : s.ns = package ++ "." ++ sub) :
    s.DeclaredIn package names ↔ (package ++ "." ++ sub, s.name) ∈ names := by
  rw [declaredIn_iff hr, hns]
  exact ⟨fun h => h (List.mem_map.2 ⟨sub, hsub, rfl⟩), fun h _ => h⟩

theorem declaredIn_reference {element : Symbol} (hp : '.' ∉ package.toList) (hns : s.ns = "")
    (hr : s.references = [element]) : s.DeclaredIn package names ↔ element.DeclaredIn package names := by
  unfold DeclaredIn
  rw [closure_eq, hr, List.forall_mem_cons, hns]
  simp only [closure.closures, List.append_nil, and_iff_right_iff_imp]
  intro _ hmem
  exact absurd hmem (not_mem_modules hp rfl)

end Symbol

open Package

/-- The names that generated code takes from elsewhere, those that choose auth schemes apart. -/
def Library.all : List Symbol :=
  callable :: (models ++ schemas ++ config ++ client ++ serialize ++ deserialize)

/-- **Names from elsewhere are in no package's modules**, those that choose auth schemes apart. -/
theorem library_foreign {s : Symbol} (h : s ∈ Library.all) : isForeign s.ns = true ∧ s.references = [] := by
  have hall : ∀ s ∈ Library.all, (isForeign s.ns && s.references.isEmpty) = true := by decide
  simpa using hall s h

theorem scalar_foreign (type : Scalar) :
    isForeign (Naming.scalar type).ns = true ∧ (Naming.scalar type).references = [] := by
  have hbuiltin : ∀ name, isForeign (Symbol.builtin name).ns = true ∧ (Symbol.builtin name).references = [] :=
    fun _ => ⟨rfl, rfl⟩
  cases type <;> first | exact hbuiltin _ | exact library_foreign (by simp [Library.all, Naming.scalar])

theorem builtinScheme_foreign {scheme : AuthScheme} (h : scheme ∈ builtinSchemes) {s : Symbol}
    (hs : scheme.symbol = some s) : isForeign s.ns = true ∧ s.references = [] := by
  simp only [builtinSchemes, List.mem_cons, List.not_mem_nil, or_false] at h
  rcases h with rfl | rfl | rfl <;> cases hs <;> exact ⟨rfl, rfl⟩

/-- The names that choose auth schemes are in a module that one package has, too. -/
theorem auth_mem_modules {package : String} (hp : '.' ∉ package.toList) :
    "smithy_core.auth" ∈ modules package ↔ package = "smithy_core" := by
  constructor
  · intro h
    obtain ⟨sub, -, hcut⟩ := cut?_of_mem_modules hp h
    have hcut' : Text.cut? '.' "smithy_core.auth".toList = some ("smithy_core".toList, "auth".toList) := rfl
    rw [hcut'] at hcut
    exact (String.toList_inj.1 (Prod.mk.inj (Option.some.inj hcut)).1).symm
  · rintro rfl
    decide

end ClientGen
