import ClientGen.Proofs.CollisionFree
import ClientGen.Proofs.ScriptFailures
import ClientGen.Proofs.SymbolForms

/-!
# How plans conduct themselves

A run asks for the symbols of certain ids, and for those that their symbols are made from. However a plan of the run
ends, the names that have an owner then belong to ids that were asked for and that declare them, and a collision is
between two such ids.
-/

namespace ClientGen

/-- A run, and the ids whose symbols may be asked for in it. With an id these are all that its symbol is made from. -/
structure Survey where
  cx : Context
  Asked : ShapeId → Prop
  next : ∀ {id next}, Asked id → Provider.MadeFrom cx.model id next → Asked next

namespace Survey

/-- The id may be asked for, and it declares the name. -/
def Takes (v : Survey) (id : ShapeId) (name : String × String) : Prop :=
  v.Asked id ∧ v.cx.provider.Reserves v.cx.model id name

/-- The table of a run: names belong to ids that take them. -/
structure Tidy (v : Survey) (t : Table) : Prop where
  sound : t.Sound v.cx.provider v.cx.model
  taken : ∀ name id, t.owner? name = some id → v.Takes id name

/-- A collision, if it is one, is between two ids that take the name. -/
def Genuine (v : Survey) (e : Error) : Prop :=
  e.isCollision = true → ∃ first second name, e = .namingCollision first second name.1 name.2 ∧ first ≠ second ∧
    v.Takes first name ∧ v.Takes second name

/-- The end of a plan: the table is tidy, what was emitted satisfies `P`, a result satisfies `Q`, and an error that
is a collision is genuine. -/
structure Ends (v : Survey) {ω α : Type} (P : ω → Prop) (Q : α → Prop) (r : Planned ω α) : Prop where
  names : v.Tidy r.names
  out : ∀ w ∈ r.out, P w
  result : ∀ a, r.result = .ok a → Q a
  error : ∀ e, r.result = .error e → v.Genuine e

/-- **What is known of a plan, however it ends.** -/
def Conducts (v : Survey) {ω α : Type} (x : Plan ω α) (P : ω → Prop) (Q : α → Prop) : Prop :=
  ∀ t, v.Tidy t → v.Ends P Q (x t)

variable {v : Survey} {ω α β : Type} {x : Plan ω α} {P : ω → Prop} {Q : α → Prop} {Q' : β → Prop}

theorem tidy_empty : v.Tidy {} := ⟨Table.sound_empty _ _, nofun⟩

theorem genuine_of_quiet {e : Error} (h : e.isCollision = false) : v.Genuine e := by
  intro hc
  rw [h] at hc
  cases hc

/-- Lookups of ids that may be asked for leave names with ids that take them. -/
theorem taken_kept (v : Survey) : v.cx.provider.Kept v.cx.model v.Asked
    fun t => ∀ name id, t.owner? name = some id → v.Takes id name where
  next := v.next
  mark _ h := h
  entry _ _ h := h
  name hnew hasked hres h := by
    intro name id howner
    rw [Table.owner?_append hnew] at howner
    split at howner
    · rename_i heq
      cases howner
      rw [← heq]
      exact ⟨hasked, hres⟩
    · exact h name id howner

theorem Asked.trans {id id' : ShapeId} (h : v.Asked id)
    (hreach : Relation.ReflTransGen (Provider.MadeFrom v.cx.model) id id') : v.Asked id' := by
  induction hreach with
  | refl => exact h
  | tail _ hmade ih => exact v.next ih hmade

theorem conducts_pure (a : α) (h : Q a) : v.Conducts (pure a : Plan ω α) P Q := by
  intro t ht
  refine ⟨ht, by simp [pure, Plan.pure], ?_, nofun⟩
  rintro _ ⟨⟩
  exact h

theorem conducts_fail {e : Error} (h : e.isCollision = false) : v.Conducts (Plan.fail e : Plan ω α) P Q := by
  intro t ht
  refine ⟨ht, by simp [Plan.fail], nofun, ?_⟩
  rintro _ ⟨⟩
  exact genuine_of_quiet h

theorem Conducts.bind {f : α → Plan ω β} (hx : v.Conducts x P Q) (hf : ∀ a, Q a → v.Conducts (f a) P Q') :
    v.Conducts (x >>= f) P Q' := by
  intro t ht
  have hends := hx t ht
  simp only [Bind.bind, Plan.bind]
  cases hr : (x t).result with
  | error e =>
    refine ⟨hends.names, hends.out, ?_, ?_⟩
    · rintro _ ⟨⟩
    · rintro _ ⟨⟩
      exact hends.error e hr
  | ok a =>
    have hends' := hf a (hends.result a hr) (x t).names hends.names
    exact ⟨hends'.names, List.forall_mem_append.2 ⟨hends.out, hends'.out⟩, hends'.result, hends'.error⟩

theorem Conducts.weaken {Q₁ : α → Prop} (h : v.Conducts x P Q) (hQ : ∀ a, Q a → Q₁ a) : v.Conducts x P Q₁ :=
  fun t ht => ⟨(h t ht).names, (h t ht).out, fun a ha => hQ a ((h t ht).result a ha), (h t ht).error⟩

/-- **A lookup** gives the symbol that the id denotes, and ends in a collision only if it is a genuine one. -/
theorem conducts_symbol {id : ShapeId} (h : v.Asked id) :
    v.Conducts (v.cx.symbol id : Plan ω Symbol) P (v.cx.provider.Denotes v.cx.model id) := by
  intro t ht
  have hsound := (Provider.symbol_keeps ht.sound id).1
  have hkept := Provider.lookup_kept v.taken_kept (Provider.depth v.cx.model) id h
  have hout : (v.cx.symbol id t : Planned ω Symbol).out = [] := rfl
  cases hr : ((v.cx.provider.symbol v.cx.model id).run t).1 with
  | ok s =>
    refine ⟨⟨hsound, hkept.of_run_ok ⟨ht.sound, ht.taken⟩ hr⟩, by simp [hout], ?_, ?_⟩
    · exact fun a ha => (Provider.symbol_ok ht.sound ha).1
    · intro e he
      cases hr.symm.trans he
  | error e =>
    obtain ⟨htaken, hblocked⟩ := hkept.of_run_error ⟨ht.sound, ht.taken⟩ hr
    refine ⟨⟨hsound, htaken⟩, by simp [hout], ?_, ?_⟩
    · intro s hs
      cases hr.symm.trans hs
    · intro e' he
      cases hr.symm.trans he
      intro hc
      obtain ⟨first, second, name, he, hne, hreach, hres, howner⟩ := (hblocked hc).parties
      exact ⟨first, second, name, he, hne, htaken name first howner, Asked.trans h hreach, hres⟩

theorem conducts_except (e : Except Error α) [he : CollisionFree e] :
    v.Conducts (liftM e : Plan ω α) P fun a => e = .ok a := by
  intro t ht
  exact ⟨ht, by simp [liftM, monadLift, MonadLift.monadLift, Plan.ofExcept], fun _ ha => ha,
    fun err herr => genuine_of_quiet (he.quiet err herr)⟩

theorem conducts_forM {bs : List β} {f : β → Plan ω PUnit} (h : ∀ b ∈ bs, v.Conducts (f b) P fun _ => True) :
    v.Conducts (bs.forM f) P fun _ => True := by
  induction bs with
  | nil => exact conducts_pure PUnit.unit trivial
  | cons b bs ih => exact (h b (by simp)).bind fun _ _ => ih fun c hc => h c (List.mem_cons_of_mem _ hc)

theorem conducts_mapM {γ : Type} {bs : List β} {f : β → Plan ω γ} (h : ∀ b ∈ bs, v.Conducts (f b) P fun _ => True) :
    v.Conducts (bs.mapM f) P fun _ => True := by
  suffices hloop : ∀ acc, v.Conducts (List.mapM.loop f bs acc) P fun _ => True from hloop []
  induction bs with
  | nil => exact fun acc => conducts_pure _ trivial
  | cons b bs ih =>
    intro acc
    exact (h b (by simp)).bind fun c _ => ih (fun d hd => h d (List.mem_cons_of_mem _ hd)) (c :: acc)

/-! ### Steps -/

/-- The steps hold no collision that is not genuine. -/
def Innocent (v : Survey) (script : Script) : Prop := ∀ e ∈ Step.failuresAll script, v.Genuine e

/-- The plan of steps conducts itself well, and what it emits is innocent. -/
class Honest (v : Survey) {α : Type} (x : Plan Step α) : Prop where
  conducts : v.Conducts x (fun step => v.Innocent [step]) fun _ => True

/-- The id may be asked for. -/
class Asks (v : Survey) (id : ShapeId) : Prop where
  asked : v.Asked id

theorem conducts_within {body : Plan Step Unit} [hbody : v.Honest body] {wrap : Script → ω}
    (h : ∀ script, v.Innocent script → P (wrap script)) : v.Conducts (Plan.within body wrap) P fun _ => True := by
  intro t ht
  have hends := hbody.conducts t ht
  have hout : v.Innocent (body t).out := by
    intro e he
    obtain ⟨step, hstep, he⟩ := Step.mem_failuresAll.1 he
    exact hends.out step hstep e (Step.mem_failuresAll.2 ⟨step, by simp, he⟩)
  unfold Plan.within
  cases hr : (body t).result with
  | ok a =>
    simp only [hr]
    exact ⟨hends.names, by simpa using h _ hout, fun _ _ => trivial, nofun⟩
  | error e =>
    have hfailed : v.Innocent ((body t).out ++ [.fail e]) := by
      intro e' he
      rw [Step.failuresAll_append, List.mem_append] at he
      rcases he with he | he
      · exact hout e' he
      · simp only [Step.failuresAll, Step.failures, List.append_nil, List.mem_singleton] at he
        rw [he]
        exact hends.error e hr
    simp only [hr]
    refine ⟨hends.names, by simpa using h _ hfailed, fun _ _ => trivial, ?_⟩
    rintro _ ⟨⟩
    exact hends.error e hr

end Survey

/-- The arguments hold no failure. -/
class Arg.Plain (args : List Arg) : Prop where
  none : Arg.failuresAll args = []

namespace Arg

instance : Plain [] := ⟨rfl⟩

instance (s : String) (rest : List Arg) [h : Plain rest] : Plain (.literal s :: rest) := ⟨h.none⟩

instance (s : Symbol) (rest : List Arg) [h : Plain rest] : Plain (.symbol s :: rest) := ⟨h.none⟩

instance (s : Symbol) (rest : List Arg) [h : Plain rest] : Plain (.name s :: rest) := ⟨h.none⟩

instance (c : Prop) [Decidable c] (a b : Arg) (rest : List Arg) [Plain (a :: rest)] [Plain (b :: rest)] :
    Plain ((if c then a else b) :: rest) := by
  split <;> infer_instance

instance (symbols : List Symbol) : Plain (symbols.map Arg.name) := by
  induction symbols with
  | nil => exact ⟨rfl⟩
  | cons s rest ih => exact ⟨ih.none⟩

end Arg

namespace Survey

variable {v : Survey} {α β : Type} {template : String} {args : List Arg} {body : Plan Step Unit}

theorem honest_fail {e : Error} (h : e.isCollision = false) : v.Honest (Plan.fail e : Plan Step α) :=
  ⟨conducts_fail h⟩

theorem Honest.forM {bs : List β} {f : β → Plan Step PUnit} (h : ∀ b ∈ bs, v.Honest (f b)) : v.Honest (bs.forM f) :=
  ⟨conducts_forM fun b hb => (h b hb).conducts⟩

theorem Honest.mapM {bs : List β} {f : β → Plan Step α} (h : ∀ b ∈ bs, v.Honest (f b)) : v.Honest (bs.mapM f) :=
  ⟨conducts_mapM fun b hb => (h b hb).conducts⟩

instance (a : α) : v.Honest (pure a) := ⟨conducts_pure a trivial⟩

instance (a : α) : v.Honest (Plan.pure a) := ⟨conducts_pure a trivial⟩

/-- The rest of a plan after a part whose result is known to satisfy `Q`. -/
theorem Honest.after {x : Plan Step α} {Q : α → Prop} {f : α → Plan Step β}
    (hx : v.Conducts x (fun step => v.Innocent [step]) Q) (hf : ∀ a, Q a → v.Honest (f a)) : v.Honest (x >>= f) :=
  ⟨hx.bind fun a ha => (hf a ha).conducts⟩

theorem Honest.bind {x : Plan Step α} {f : α → Plan Step β} [hx : v.Honest x] (hf : ∀ a, v.Honest (f a)) :
    v.Honest (x >>= f) :=
  .after hx.conducts fun a _ => hf a

instance (x : Plan Step α) (f : α → Plan Step β) [v.Honest x] [∀ a, v.Honest (f a)] : v.Honest (x >>= f) :=
  .bind inferInstance

-- without it the search for an instance would double with every step
instance (x : Plan Step α) (y : Plan Step β) [v.Honest x] [v.Honest y] : v.Honest (x >>= fun _ => y) :=
  .bind fun _ => inferInstance

instance (c : Prop) [Decidable c] (x y : Plan Step α) [v.Honest x] [v.Honest y] : v.Honest (if c then x else y) := by
  split <;> infer_instance

instance (e : Except Error α) [CollisionFree e] : v.Honest (liftM e) :=
  ⟨(conducts_except e).weaken fun _ _ => trivial⟩

instance (id : ShapeId) [h : v.Asks id] : v.Honest (v.cx.symbol id) :=
  ⟨(conducts_symbol h.asked).weaken fun _ _ => trivial⟩

instance (bs : List β) (f : β → Plan Step PUnit) [h : ∀ b, v.Honest (f b)] : v.Honest (bs.forM f) :=
  .forM fun b _ => h b

theorem honest_emit {step : Step} (h : step.failures = []) : v.Honest (Plan.emit step) := by
  refine ⟨fun t ht => ⟨ht, ?_, fun _ _ => trivial, nofun⟩⟩
  intro w hw e he
  cases List.mem_singleton.1 hw
  simp [Step.failuresAll, h] at he

instance (s : Symbol) : v.Honest (Plan.emit (.importSymbol s)) := honest_emit rfl

instance (module : String) : v.Honest (Plan.emit (.importModule module)) := honest_emit rfl

instance (d : Dependency) : v.Honest (Plan.emit (.dependency d)) := honest_emit rfl

instance [h : Arg.Plain args] : v.Honest (Plan.line template args) := honest_emit h.none

instance [h : Arg.Plain args] : v.Honest (Plan.inline template args) := honest_emit h.none

instance : v.Honest Plan.newline := honest_emit rfl

instance (text : String) : v.Honest (Plan.docs text) := honest_emit rfl

instance (d : Declarator) (name : String) [h : Arg.Plain args] : v.Honest (Plan.defineLine d name template args) :=
  honest_emit (by simp [Step.failures, Step.failuresAll, h.none])

instance : v.Honest Plan.separate := by
  unfold Plan.separate
  infer_instance

instance (text : Option String) : v.Honest (Plan.leadingDocs text) := by
  unfold Plan.leadingDocs
  split <;> infer_instance

instance (text : Option String) : v.Honest (Plan.trailingDocs text) := by
  unfold Plan.trailingDocs
  split <;> infer_instance

instance (c : Bool) [v.Honest body] : v.Honest (Plan.onlyIf c body) := by
  unfold Plan.onlyIf
  infer_instance

instance (here : String) (s : Symbol) : v.Honest (Plan.reference here s) := by
  unfold Plan.reference
  infer_instance

instance (here : String) (s : Option Symbol) : v.Honest (Plan.referenceOrNone here s) := by
  unfold Plan.referenceOrNone
  split <;> infer_instance

theorem honest_within [v.Honest body] {wrap : Script → Step}
    (h : ∀ script, (wrap script).failures = Step.failuresAll script) : v.Honest (Plan.within body wrap) := by
  refine ⟨conducts_within fun script hscript e he => hscript e ?_⟩
  rw [← h script]
  simpa [Step.failuresAll] using he

instance [h : Arg.Plain args] [v.Honest body] : v.Honest (Plan.block template args body) :=
  honest_within fun _ => by simp [Step.failures, h.none]

instance (d : Declarator) (name : String) [h : Arg.Plain args] [v.Honest body] :
    v.Honest (Plan.define d name template args body) :=
  honest_within fun _ => by simp [Step.failures, h.none]

instance (s : Section) [v.Honest body] : v.Honest (Plan.scope s body) := honest_within fun _ => rfl

instance [h : Arg.Plain args] [v.Honest body] : v.Honest (Plan.lineWith template args body) := by
  refine honest_within fun script => ?_
  have hall : Arg.failuresAll (args ++ [.code script]) = Arg.failuresAll args ++ Step.failuresAll script := by
    clear h
    induction args with
    | nil => simp [Arg.failuresAll, Arg.failures]
    | cons a args ih => simp [Arg.failuresAll, ih]
  rw [Step.failures, hall, h.none, List.nil_append]

end Survey

open Naming Package

/-! ### Edits -/

/-- The file of a module of the package. -/
def Package.moduleFile (package sub : String) : String := package ++ "/" ++ Text.replaceChar '.' '/' sub ++ ".py"

namespace Symbol

/-- A symbol that a file declares is in a module of the package, and the file is that module's. -/
def Housed (package : String) (s : Symbol) : Prop :=
  ∀ path, s.file = some path → ∃ sub ∈ submodules, s.ns = package ++ "." ++ sub ∧ path = moduleFile package sub

/-- The same for the symbol and its helpers. -/
structure AllHoused (package : String) (s : Symbol) : Prop where
  self : s.Housed package
  helper : ∀ role helper, s.property? role = some helper → helper.Housed package

/-- Where the symbols of shapes are: in the file of one of three modules of the package, or in no file and no module of
any package. -/
def Settled (package : String) (s : Symbol) : Prop :=
  (∃ sub ∈ [modelsModule, schemasModule, clientModule], s.ns = package ++ "." ++ sub ∧
    s.file = some (moduleFile package sub)) ∨ isForeign s.ns = true ∧ s.file = none

structure AllSettled (package : String) (s : Symbol) : Prop where
  self : s.Settled package
  helper : ∀ role helper, s.property? role = some helper → helper.Settled package

variable {package : String} {s helper : Symbol}

theorem housed_declared (name : String) {sub : String} (h : sub ∈ submodules) : (declared package name sub).Housed package := by
  rintro _ ⟨⟩
  exact ⟨sub, h, rfl, rfl⟩

theorem housed_modelClass (name : String) : (modelClass package name).Housed package :=
  housed_declared name (by simp [submodules])

theorem Settled.housed (h : s.Settled package) : s.Housed package := by
  have hsub : [modelsModule, schemasModule, clientModule] ⊆ submodules := by decide
  intro path hpath
  rcases h with ⟨sub, hmem, hns, hfile⟩ | ⟨-, hfile⟩
  · rw [hfile] at hpath
    cases hpath
    exact ⟨sub, hsub hmem, hns, rfl⟩
  · rw [hfile] at hpath
    cases hpath

theorem settled_declared (name : String) {sub : String} (h : sub ∈ [modelsModule, schemasModule, clientModule]) :
    (declared package name sub).Settled package :=
  .inl ⟨sub, h, rfl, rfl⟩

theorem settled_modelClass (name : String) : (modelClass package name).Settled package :=
  settled_declared name (by simp)

theorem allSettled_of_no_properties (h : s.Settled package) (hp : s.properties = []) : s.AllSettled package := by
  refine ⟨h, fun role helper hr => ?_⟩
  unfold property? at hr
  rw [hp] at hr
  cases hr

theorem AllSettled.withProperty (h : s.AllSettled package) (role : String) (hh : helper.Settled package) :
    (s.withProperty role helper).AllSettled package := by
  refine ⟨h.self, fun role' helper' hr => ?_⟩
  rw [property?_withProperty] at hr
  split at hr
  · cases hr
    exact hh
  · exact h.helper role' helper' hr

theorem settled_schema (id : ShapeId) : (Naming.schema package id).Settled package := by
  unfold Naming.schema
  dsimp only
  split
  · have hforeign : isForeign "smithy_core.prelude" = true := rfl
    exact .inr ⟨hforeign, rfl⟩
  · exact settled_declared (Text.screamingCase id.name) (by simp)

theorem allSettled_collection {m : Model} {id : ShapeId} {name : String} {element : Symbol} {target : ShapeId}
    (h : Naming.collection package m id name element target = .ok s) : s.AllSettled package := by
  have htype : (((Symbol.builtin name).withReference element).withProperty Symbol.schemaRole
      (Naming.schema package id)).AllSettled package :=
    (allSettled_of_no_properties (.inr ⟨rfl, rfl⟩) rfl).withProperty _ (settled_schema id)
  obtain ⟨converts, -, h⟩ := bind_ok_iff.1 h
  split at h <;> cases h
  · exact (htype.withProperty _ (settled_modelClass _)).withProperty _ (settled_modelClass _)
  · exact htype

theorem allSettled_shapeSymbol {m : Model} {id : ShapeId} {element : Symbol} {kind : Kind}
    (h : Provider.shapeSymbol { package } m id element kind = .ok s) : s.AllSettled package := by
  cases kind with
  | struct members | enumeration values =>
    cases h
    exact (allSettled_of_no_properties (settled_modelClass _) rfl).withProperty _ (settled_schema id)
  | union members =>
    cases h
    exact (((allSettled_of_no_properties (settled_modelClass _) rfl).withProperty _ (settled_schema id)).withProperty _
      (settled_modelClass _)).withProperty _ (settled_modelClass _)
  | list e | set e | map k e => exact allSettled_collection h
  | scalar type =>
    cases h
    refine AllSettled.withProperty ?_ _ (settled_schema id)
    refine allSettled_of_no_properties (.inr ⟨(scalar_foreign type).1, ?_⟩) ?_ <;> cases type <;> rfl
  | operation op | service service =>
    cases h
    exact allSettled_of_no_properties (settled_declared _ (by simp)) rfl

/-- **Where the symbols of a run without changes to them are.** -/
theorem allSettled_of_denotes {m : Model} {id : ShapeId} (h : Provider.Denotes { package } m id s) :
    s.AllSettled package := by
  generalize hp : ({ package } : Provider) = p at h
  induction h with
  | standsFor _ _ ih => exact ih
  | variant =>
    subst hp
    exact allSettled_of_no_properties (settled_modelClass _) rfl
  | plain _ _ _ h | collection _ _ _ _ h =>
    subst hp
    exact allSettled_shapeSymbol h

/-- So they are in the files of their modules. -/
theorem allHoused_of_denotes {m : Model} {id : ShapeId} (h : Provider.Denotes { package } m id s) :
    s.AllHoused package := by
  have hsettled := allSettled_of_denotes h
  exact ⟨hsettled.self.housed, fun role helper hr => (hsettled.helper role helper hr).housed⟩

end Symbol

namespace Survey

variable {v : Survey} {ω β : Type}

/-- The edit is innocent, and of the file that its module has. -/
structure Sends (v : Survey) (e : Edit) : Prop where
  innocent : v.Innocent e.script
  housed : ∃ sub ∈ submodules, e.ns = v.cx.package ++ "." ++ sub ∧ e.path = moduleFile v.cx.package sub

theorem conducts_edit {s : Symbol} (hs : s.Housed v.cx.package) {body : Plan Step Unit} [v.Honest body] :
    v.Conducts (Plan.edit s body) v.Sends fun _ => True := by
  unfold Plan.edit
  split
  · rename_i path hpath
    exact conducts_within fun script hscript => ⟨hscript, hs path hpath⟩
  · exact conducts_fail rfl

/-- A lookup in a run without changes to symbols gives one that is where it belongs. -/
theorem conducts_housed (hp : v.cx.provider = { package := v.cx.package }) {id : ShapeId} [h : v.Asks id] {P : ω → Prop} :
    v.Conducts (v.cx.symbol id : Plan ω Symbol) P fun s => s.AllHoused v.cx.package := by
  refine (conducts_symbol h.asked).weaken fun s hs => ?_
  rw [hp] at hs
  exact Symbol.allHoused_of_denotes hs

theorem Conducts.property {s : Symbol} (hs : s.AllHoused v.cx.package) {role : String} {f : Symbol → Plan Edit β}
    {P : Edit → Prop} {Q : β → Prop} (h : ∀ helper, helper.Housed v.cx.package → v.Conducts (f helper) P Q) :
    v.Conducts (liftM (s.property role) >>= f) P Q :=
  (conducts_except _).bind fun helper hhelper => h helper (hs.helper role helper (Symbol.property_eq_ok hhelper))

end Survey

end ClientGen
