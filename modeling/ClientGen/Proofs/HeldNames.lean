import ClientGen.Proofs.DeclaredNames

/-!
# The names in a file, and the modules that they come from

A file of a package has names that it imports and names that it defines. Some are the same in every package, some
are given by the model: the classes of its shapes, the variants of its unions, the client and its methods. The rest
starts with an underscore and a word of its own, or is a constant in capitals.

* `Context.Holds.coincides`: there are no others.
* `mem_unreservedNames_iff`: the names of every package that the list of reserved names leaves to classes.
-/

namespace ClientGen

open Naming Package Text

/-- Is there a class of its own for values of the kind? -/
def Kind.hasClass : Kind → Bool
  | .struct _ | .union _ | .enumeration _ => true
  | _ => false

/-- **The names that the model gives**, with the module below the package. -/
inductive Context.Gives (cx : Context) : String → String → Prop where
  | valueClass {id : ShapeId} {shape : Shape} : cx.model.get? id = some shape → shape.kind.hasClass = true →
      Gives cx modelsModule (className id.name)
  | unknown {id : ShapeId} {shape : Shape} {members : List Member} : cx.model.get? id = some shape →
      shape.kind = .union members → Gives cx modelsModule (className id.name ++ "Unknown")
  | variant {id : ShapeId} {shape : Shape} {members : List Member} {name : String} {member : Member} :
      cx.model.get? id = some shape → shape.kind = .union members → shape.member? name = some member →
      Gives cx modelsModule (className shape.id.name ++ pascalCase name)
  | method {id : ShapeId} {shape : Shape} {op : Operation} : cx.model.get? id = some shape →
      shape.kind = .operation op → Gives cx clientModule (snakeCase id.name)
  | client {id : ShapeId} {shape : Shape} {service : Service} : cx.model.get? id = some shape →
      shape.kind = .service service → Gives cx clientModule (className id.name ++ "Client")

namespace Package

/-- The modules that mention types of the model. -/
def typeUsers : List String := [modelsModule, clientModule, serializeModule, deserializeModule]

/-- What a module may import from other packages, the schemas of the prelude apart. -/
def foreignImports (sub : String) : List Symbol :=
  if sub = modelsModule then Library.models
  else if sub = schemasModule then Library.schemas
  else if sub = authModule then [Library.callable, Library.authParams, Library.authOption]
  else if sub = configModule then Library.config ++ builtinSchemes.filterMap AuthScheme.symbol
  else if sub = clientModule then
    Library.client ++ [Library.authParams, Library.decimal, Library.datetime, Library.document]
  else if sub = serializeModule then
    Library.serialize ++ [Library.decimal, Library.datetime, Library.document, restJson.codec, rpcCbor.codec]
  else if sub = deserializeModule then
    Library.deserialize ++ [Library.decimal, Library.datetime, restJson.codec, rpcCbor.codec]
  else []

/-- The names of every package that a module may import or define, with the modules they are defined in. -/
def ownNames (sub : String) : List (String × String) :=
  if sub = modelsModule then
    ["logger", "_DEFAULT_TIMESTAMP", "ServiceError", "ApiError", "UnknownApiError"].map fun name => (modelsModule, name)
  else if sub = authModule then
    (authModule, "HTTPAuthSchemeResolver") :: builtinSchemes.map fun scheme => (authModule, scheme.factoryName)
  else if sub = configModule then
    [(configModule, "Config"), (configModule, "Plugin"), (authModule, "HTTPAuthSchemeResolver")]
  else if sub = clientModule then
    [(configModule, "Config"), (configModule, "Plugin"), (modelsModule, "ServiceError"), (modelsModule, "ApiError")]
  else if sub = serializeModule then [(configModule, "Config")]
  else if sub = deserializeModule then
    [(configModule, "Config"), (modelsModule, "ApiError"), (modelsModule, "UnknownApiError")]
  else []

/-- The names that a module may have in every package. -/
def fixedNames (sub : String) : List String := (foreignImports sub).map Symbol.name ++ (ownNames sub).map Prod.snd

/-- The same with the modules that they come from. -/
def fixedSources (package sub : String) : List (String × String) :=
  (foreignImports sub).map (fun s => (s.ns, s.name)) ++ (ownNames sub).map fun e => (package ++ "." ++ e.1, e.2)

/-- The modules that may have functions which convert values, those that the functions are in, and the words that they
begin with. -/
def converters : List (String × String × String) := [
  (modelsModule, modelsModule, "_serialize_"), (modelsModule, modelsModule, "_deserialize_"),
  (clientModule, serializeModule, "_serialize_"), (clientModule, deserializeModule, "_deserialize_"),
  (serializeModule, serializeModule, "_serialize_"), (deserializeModule, deserializeModule, "_deserialize_")]

end Package

/-- **The names that a module of the package may have**, each with the module that it comes from. -/
inductive Context.Holds (cx : Context) : String → String → String → Prop where
  | fixed {sub module name : String} : (module, name) ∈ fixedSources cx.package sub → Holds cx sub module name
  | given {sub home name : String} : sub ∈ typeUsers → cx.Gives home name →
      Holds cx sub (cx.package ++ "." ++ home) name
  /-- The schema of a shape, where its class is. -/
  | schema {id : ShapeId} : id.isPrelude = false →
      Holds cx modelsModule (cx.package ++ "." ++ schemasModule) ("_SCHEMA_" ++ screamingCase id.name)
  | constant {id : ShapeId} {shape : Shape} : cx.model.get? id = some shape → id.isPrelude = false →
      Holds cx schemasModule (cx.package ++ "." ++ schemasModule) (screamingCase id.name)
  | prelude {id : ShapeId} {shape : Shape} : cx.model.get? id = some shape → id.isPrelude = true →
      Holds cx schemasModule "smithy_core.prelude" (screamingCase id.name)
  | converter {sub home word name : String} : (sub, home, word) ∈ converters →
      Holds cx sub (cx.package ++ "." ++ home) (word ++ name)
  /-- The class that reads the values of a union. -/
  | reader {name : String} : Holds cx modelsModule (cx.package ++ "." ++ modelsModule) ("_" ++ name ++ "Deserializer")

/-- **How a name may come from two modules.** -/
inductive Context.Coincides (cx : Context) (sub name : String) : Prop where
  /-- The model gives a name that the module may have in every package. -/
  | fixed {home : String} : sub ∈ typeUsers → cx.Gives home name → name ∈ fixedNames sub → Coincides cx sub name
  /-- The model gives the name to a type, and to the client or a method. -/
  | twice : sub ∈ typeUsers → cx.Gives modelsModule name → cx.Gives clientModule name → Coincides cx sub name
  /-- The constants of a shape of the package and of one of the prelude have the name. -/
  | constant {id prelude : ShapeId} {shape shape' : Shape} : sub = schemasModule → cx.model.get? id = some shape →
      cx.model.get? prelude = some shape' → id.isPrelude = false → prelude.isPrelude = true →
      name = screamingCase id.name → name = screamingCase prelude.name → Coincides cx sub name

variable {cx : Context} {sub module module' name : String}

/-! ### Names of every package -/

theorem fixedNames_nodup : ∀ sub ∈ submodules, (fixedNames sub).Nodup := by decide +kernel

theorem fixedSources_names (package sub : String) : (fixedSources package sub).map Prod.snd = fixedNames sub := by
  simp [fixedSources, fixedNames, Function.comp_def]

theorem mem_fixedNames {package : String} (h : (module, name) ∈ fixedSources package sub) : name ∈ fixedNames sub := by
  rw [← fixedSources_names package]
  exact List.mem_map.2 ⟨_, h, rfl⟩

theorem fixedSources_unique {package : String} (hsub : sub ∈ submodules) (h : (module, name) ∈ fixedSources package sub)
    (h' : (module', name) ∈ fixedSources package sub) : module = module' := by
  have hnodup := fixedNames_nodup sub hsub
  rw [← fixedSources_names package] at hnodup
  exact congrArg Prod.fst (List.inj_on_of_nodup_map hnodup h h' rfl)

/-! ### Names that start with an underscore -/

/-- The module that a name with an underscore in front comes from. -/
def privateHome (sub name : String) : String :=
  if sub = modelsModule then
    if name.toList.take 8 = "_SCHEMA_".toList ∧ name.toList.getLast? ≠ some 'r' then schemasModule else modelsModule
  else if sub = clientModule then
    if name.toList[1]? = some 's' then serializeModule else deserializeModule
  else sub

theorem head?_ne {s : String} (h : ∀ c rest, s.toList = c :: rest → c ≠ '_') : s.toList.head? ≠ some '_' := by
  cases hs : s.toList with
  | nil => simp
  | cons c rest => simpa using h c rest hs

theorem head?_append_ne {s t : String} (hs : s.toList.head? ≠ some '_') (ht : t.toList.head? ≠ some '_') :
    (s ++ t).toList.head? ≠ some '_' := by
  rw [String.toList_append]
  cases hlist : s.toList with
  | nil => exact ht
  | cons c rest => rwa [hlist] at hs

theorem Context.Gives.head {home : String} (h : cx.Gives home name) : name.toList.head? ≠ some '_' := by
  have hclass : ∀ name, (className name).toList.head? ≠ some '_' :=
    fun name => head?_ne fun c rest hlist => (className_head hlist).2
  cases h with
  | valueClass _ _ => exact hclass _
  | unknown _ _ | client _ _ => exact head?_append_ne (hclass _) (by decide)
  | variant _ _ _ => exact head?_ne fun c rest hlist => (variant_head hlist).2
  | method _ _ => exact head?_ne fun c rest hlist => snakeCase_head hlist

/-- Of the names of every package, those with an underscore in front come from the module that they show. -/
theorem fixedSources_private {package : String} (hsub : sub ∈ submodules)
    (h : (module, name) ∈ fixedSources package sub) (hname : name.toList.head? = some '_') : module = package ++ "." ++ privateHome sub name := by
  have hforeign : ∀ sub ∈ submodules, ∀ s ∈ foreignImports sub, s.name.toList.head? ≠ some '_' := by decide +kernel
  have hown : ∀ sub ∈ submodules, ∀ e ∈ ownNames sub, e.2.toList.head? = some '_' → e.1 = privateHome sub e.2 := by
    decide +kernel
  rcases List.mem_append.1 h with h | h
  · obtain ⟨s, hs, heq⟩ := List.mem_map.1 h
    cases heq
    exact absurd hname (hforeign sub hsub s hs)
  · obtain ⟨e, he, heq⟩ := List.mem_map.1 h
    cases heq
    rw [hown sub hsub e he hname]

theorem getLast?_schema (id : ShapeId) : ("_SCHEMA_" ++ screamingCase id.name).toList.getLast? ≠ some 'r' := by
  intro hlast
  have hmem := List.mem_of_getLast? hlast
  rw [String.toList_append, List.mem_append] at hmem
  rcases hmem with hmem | hmem
  · revert hmem
    decide
  · exact absurd (screamingCase_isLower id.name 'r' hmem) (by decide)

/-- **A name with an underscore in front comes from the module that it shows.** -/
theorem Context.Holds.private (hsub : sub ∈ submodules) (hschemas : sub ≠ schemasModule) (h : cx.Holds sub module name)
    (hname : name.toList.head? = some '_') : module = cx.package ++ "." ++ privateHome sub name := by
  cases h with
  | fixed h => exact fixedSources_private hsub h hname
  | given _ h => exact absurd hname h.head
  | @schema id _ =>
    have hhome : privateHome modelsModule ("_SCHEMA_" ++ screamingCase id.name) = schemasModule := by
      unfold privateHome
      rw [if_pos rfl, if_pos ⟨by rw [String.toList_append]; rfl, getLast?_schema id⟩]
    rw [hhome]
  | constant _ _ | prelude _ _ => exact absurd rfl hschemas
  | @converter sub home word name h =>
    have hhome : ∀ e ∈ converters, e.2.1 = if e.1 = modelsModule then modelsModule
        else if e.1 = clientModule then if e.2.2.toList[1]? = some 's' then serializeModule else deserializeModule
        else e.1 := by decide +kernel
    -- the second letter tells writers from readers, and both from schemas
    have hsecond : ∀ e ∈ converters, (e.2.2.toList[1]? = some 's' ∨ e.2.2.toList[1]? = some 'd') ∧
        1 < e.2.2.toList.length := by decide +kernel
    have heq := hhome _ h
    obtain ⟨hsecond, hlength⟩ := hsecond _ h
    dsimp only at heq hsecond hlength
    have hsame : (word ++ name).toList[1]? = word.toList[1]? := by
      rw [String.toList_append, List.getElem?_append_left hlength]
    have hne : ¬ ((word ++ name).toList.take 8 = "_SCHEMA_".toList ∧ (word ++ name).toList.getLast? ≠ some 'r') := by
      rintro ⟨htake, -⟩
      have hone := congrArg (fun cs : List Char => cs[1]?) htake
      rw [List.getElem?_take_of_lt (by omega), hsame] at hone
      rcases hsecond with hsecond | hsecond <;> rw [hsecond] at hone <;> revert hone <;> decide
    rw [heq]
    unfold privateHome
    rw [if_neg hne, hsame]
  | @reader name =>
    have hlast : ("_" ++ name ++ "Deserializer").toList.getLast? = some 'r' := by
      rw [String.toList_append, List.getLast?_append]
      rfl
    unfold privateHome
    rw [if_pos rfl, if_neg fun hand => hand.2 hlast]

/-! ### Other names -/

theorem Context.Holds.public (hschemas : sub ≠ schemasModule) (h : cx.Holds sub module name)
    (hname : name.toList.head? ≠ some '_') : (module, name) ∈ fixedSources cx.package sub ∨
      ∃ home, sub ∈ typeUsers ∧ cx.Gives home name ∧ module = cx.package ++ "." ++ home := by
  cases h with
  | fixed h => exact .inl h
  | given hsub h => exact .inr ⟨_, hsub, h, rfl⟩
  | schema _ => exact absurd (by rw [String.toList_append]; rfl) hname
  | constant _ _ | prelude _ _ => exact absurd rfl hschemas
  | @converter sub home word name h =>
    have hword : ∀ e ∈ converters, e.2.2.toList.head? = some '_' := by decide +kernel
    have hhead := hword _ h
    rw [String.toList_append] at hname
    exact absurd (by rw [List.head?_append, hhead]; rfl) hname
  | reader => exact absurd (by simp) hname

/-- The names of a schemas module: constants are in capitals, and names of every package are not. -/
theorem Context.Holds.schemas (h : cx.Holds schemasModule module name) :
    (module, name) ∈ fixedSources cx.package schemasModule ∧ name.toList.any Char.isLower = true ∨
      (∃ id shape, cx.model.get? id = some shape ∧ name = screamingCase id.name ∧
        (id.isPrelude = false ∧ module = cx.package ++ "." ++ schemasModule ∨
          id.isPrelude = true ∧ module = "smithy_core.prelude")) ∧ name.toList.any Char.isLower = false := by
  have hcapitals : ∀ name, (screamingCase name).toList.any Char.isLower = false := by
    intro name
    rw [List.any_eq_false]
    intro c hc
    rw [screamingCase_isLower name c hc]
    exact Bool.false_ne_true
  generalize hsub : schemasModule = sub at h
  cases h with
  | fixed h =>
    subst hsub
    have hlower : ∀ name ∈ fixedNames schemasModule, name.toList.any Char.isLower = true := by decide +kernel
    exact .inl ⟨h, hlower name (mem_fixedNames h)⟩
  | given hmem _ =>
    subst hsub
    exact absurd hmem (by decide)
  | schema _ | reader => exact absurd hsub (by decide)
  | constant hshape hid => exact .inr ⟨⟨_, _, hshape, rfl, .inl ⟨hid, rfl⟩⟩, hcapitals _⟩
  | prelude hshape hid => exact .inr ⟨⟨_, _, hshape, rfl, .inr ⟨hid, rfl⟩⟩, hcapitals _⟩
  | converter hmem =>
    subst hsub
    have hnone : ∀ e ∈ converters, e.1 ≠ schemasModule := by decide +kernel
    exact absurd rfl (hnone _ hmem)

/-! ### One name from two modules -/

theorem Context.Gives.home {home : String} (h : cx.Gives home name) : home = modelsModule ∨ home = clientModule := by
  cases h <;> simp

theorem Context.Holds.coincides_schemas (h : cx.Holds schemasModule module name)
    (h' : cx.Holds schemasModule module' name) (hne : module ≠ module') : cx.Coincides schemasModule name := by
  rcases h.schemas with ⟨h, hlower⟩ | ⟨⟨id, shape, hshape, hname, hid⟩, hlower⟩
  · rcases h'.schemas with ⟨h', -⟩ | ⟨-, hlower'⟩
    · exact absurd (fixedSources_unique (by decide) h h') hne
    · rw [hlower] at hlower'
      cases hlower'
  · rcases h'.schemas with ⟨-, hlower'⟩ | ⟨⟨id', shape', hshape', hname', hid'⟩, -⟩
    · rw [hlower] at hlower'
      cases hlower'
    rcases hid with ⟨hid, rfl⟩ | ⟨hid, rfl⟩ <;> rcases hid' with ⟨hid', rfl⟩ | ⟨hid', rfl⟩
    · exact absurd rfl hne
    · exact .constant rfl hshape hshape' hid hid' hname hname'
    · exact .constant rfl hshape' hshape hid' hid hname' hname
    · exact absurd rfl hne

/-- **A name that a module has from two others is a coincidence in the model.** -/
theorem Context.Holds.coincides (hsub : sub ∈ submodules) (h : cx.Holds sub module name)
    (h' : cx.Holds sub module' name) (hne : module ≠ module') : cx.Coincides sub name := by
  by_cases hschemas : sub = schemasModule
  · subst hschemas
    exact h.coincides_schemas h' hne
  by_cases hname : name.toList.head? = some '_'
  · exact absurd ((h.private hsub hschemas hname).trans (h'.private hsub hschemas hname).symm) hne
  rcases h.public hschemas hname with hfixed | ⟨home, huser, hgives, rfl⟩
  · rcases h'.public hschemas hname with hfixed' | ⟨home', huser, hgives, rfl⟩
    · exact absurd (fixedSources_unique hsub hfixed hfixed') hne
    · exact .fixed huser hgives (mem_fixedNames hfixed)
  · rcases h'.public hschemas hname with hfixed' | ⟨home', -, hgives', rfl⟩
    · exact .fixed huser hgives (mem_fixedNames hfixed')
    -- the model gives the name in two modules
    rcases hgives.home with rfl | rfl <;> rcases hgives'.home with rfl | rfl
    · exact absurd rfl hne
    · exact .twice huser hgives hgives'
    · exact .twice huser hgives' hgives
    · exact absurd rfl hne

/-! ### Reserved names -/

/-- The names of every package that modules with types of the model may have, and that are not reserved though
they are in the style of classes. -/
def unreservedNames : List String := [
  "UTC", "SmithyException", "Awaitable", "HTTPRequest", "HTTPResponse", "SmithyRetryException", "AuthParams", "Plugin",
  "URI", "Fields", "Field", "JSONCodec", "CBORCodec"]

/-- **A class may take an unreserved name only.** -/
theorem className_mem_fixedNames {shape : String} (hsub : sub ∈ typeUsers) (h : className shape ∈ fixedNames sub) :
    className shape ∈ unreservedNames := by
  have hfixed : ∀ sub ∈ typeUsers, ∀ name ∈ fixedNames sub, name.toList.getLast? ≠ some '_' ∧
      (name ∈ unreservedNames ∨ name ∈ reservedClassNames ∨
        name.toList.head?.any (fun c => c.isLower || c == '_') = true) := by decide +kernel
  obtain ⟨hlast, hunreserved | hreserved | hhead⟩ := hfixed sub hsub _ h
  · exact hunreserved
  · -- a reserved name gets an underscore at its end
    exfalso
    generalize hpascal : pascalCase shape = pascal at *
    unfold className at hlast hreserved
    rw [hpascal] at hlast hreserved
    dsimp only at hlast hreserved
    split at hlast
    · exact hlast (by simp)
    · rename_i hfree
      rw [if_neg hfree] at hreserved
      simp [hreserved] at hfree
  · exfalso
    cases hlist : (className shape).toList with
    | nil =>
      rw [hlist] at hhead
      cases hhead
    | cons c rest =>
      have hc := className_head hlist
      rw [hlist] at hhead
      simp [hc.1, hc.2] at hhead

/-- **The unreserved names are those of every package that a class can take.** -/
theorem mem_unreservedNames_iff {name : String} : name ∈ unreservedNames ↔
    (∃ sub ∈ typeUsers, name ∈ fixedNames sub) ∧ ∃ shape, className shape = name := by
  -- capitals in a row are spelled with underscores between them
  have htaken : unreservedNames = ["u_t_c", "SmithyException", "Awaitable", "h_t_t_p_request", "h_t_t_p_response",
      "SmithyRetryException", "AuthParams", "Plugin", "u_r_i", "Fields", "Field", "j_s_o_n_codec", "c_b_o_r_codec"].map
      className := by decide +kernel
  have hfixed : ∀ name ∈ unreservedNames, ∃ sub ∈ typeUsers, name ∈ fixedNames sub := by decide +kernel
  constructor
  · intro h
    refine ⟨hfixed name h, ?_⟩
    rw [htaken] at h
    obtain ⟨shape, -, hshape⟩ := List.mem_map.1 h
    exact ⟨shape, hshape⟩
  · rintro ⟨⟨sub, hsub, hname⟩, shape, rfl⟩
    exact className_mem_fixedNames hsub hname

end ClientGen
