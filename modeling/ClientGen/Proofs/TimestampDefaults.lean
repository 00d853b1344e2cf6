import ClientGen.Proofs.DistinctDefinitions
import ClientGen.Proofs.LiteralReader
import ClientGen.Proofs.RequestPath
import Mathlib

/-!
# The time that timestamps start from

A timestamp whose default is zero has the constant `_DEFAULT_TIMESTAMP` for its default. The constant is defined at the
start of the models module, once, and only if the model has a timestamp. Whether a default is the constant is decided
member by member from the shape that the target resolves to; whether the model has a timestamp is decided from its
shapes and from the targets that name the timestamp of the prelude. **Where the first holds, the second does.**

* `defaultExpression_gives`: the default of a member is the constant only if its target is a timestamp.
* `timestamp_defined_first`: all this for whole runs.
-/

namespace ClientGen

/-- The text of the value that a field has when it is not given. -/
def Step.fieldDefaults : Step → List String
  | .define .value _ ": $L = $L" [_, .literal text] _ => [text]
  | _ => []

/-- The defaults of the fields of all classes. -/
def Edit.fieldDefaults (e : Edit) : List String := e.script.flatMap (Step.inClasses Step.fieldDefaults)

/-- A view that sees neither lines nor blocks. -/
class Step.Shallow {δ : Type} (look : Step → List δ) : Prop extends Step.Plain look where
  line : ∀ template args, look (.line template args) = []
  block : ∀ template args body, look (.block template args body) = []

instance {δ : Type} (look : Step → List δ) : Step.Shallow (Step.inClasses look) where
  docs _ := rfl
  newline := rfl
  imports _ := rfl
  line _ _ := rfl
  block _ _ _ := rfl

instance : Step.Shallow Step.fieldDefaults where
  docs _ := rfl
  newline := rfl
  imports _ := rfl
  line _ _ := rfl
  block _ _ _ := rfl

namespace Plan

open Package

variable {ω α β δ : Type} {look : ω → List δ} {S : List δ → Prop} {Q : α → Prop} {x : Plan ω α}

/-! ### Results -/

/-- What is known of the result of a plan, if it succeeds. -/
def Gives (x : Plan ω α) (Q : α → Prop) : Prop := ∀ t a, (x t).result = .ok a → Q a

theorem gives_pure {a : α} (h : Q a) : Gives (pure a : Plan ω α) Q := by
  rintro t _ ⟨⟩
  exact h

theorem Gives.after {y : Plan ω β} {f : β → Plan ω α} (hf : ∀ b, Gives (f b) Q) : Gives (y >>= f) Q := by
  intro t a hok
  obtain ⟨b, -, hb⟩ := bind_ok hok
  exact hf b _ a hb

theorem gives_known {e : Except Error β} {f : β → Plan ω α} (hf : ∀ b, e = .ok b → Gives (f b) Q) :
    Gives ((liftM e : Plan ω β) >>= f) Q := by
  intro t a hok
  obtain ⟨b, hb, hok⟩ := bind_ok hok
  exact hf b hb _ a hok

/-- What is known of the result may be used for the rest, if nothing is seen of the plan itself. -/
theorem Sees.given {f : α → Plan ω β} (hx : Lists look x []) (hg : Gives x Q) (hf : ∀ a, Q a → Sees look (f a) S) :
    Sees look (x >>= f) S := by
  intro t b hok
  obtain ⟨a, ha, hb⟩ := bind_ok hok
  rw [bind_out ha, List.flatMap_append, hx t a ha]
  exact hf a (hg t a ha) _ b hb

theorem Sees.edit {look : Step → List δ} {body : Plan Step Unit} (h : Sees look body S) (s : Symbol) :
    Sees (fun e : Edit => e.script.flatMap look) (edit s body) S := by
  unfold Plan.edit
  split
  · exact h.within fun _ => rfl
  · rintro t a ⟨⟩

/-- What a loop shows one of its rounds shows. -/
theorem Sees.forM_mem {d : δ} {bs : List β} {f : β → Plan ω PUnit} {P : β → Prop}
    (h : ∀ b ∈ bs, Sees look (f b) fun seen => d ∈ seen → P b) :
    Sees look (bs.forM f) fun seen => d ∈ seen → ∃ b ∈ bs, P b := by
  induction bs with
  | nil => exact fun t a _ hd => absurd hd List.not_mem_nil
  | cons b bs ih =>
    intro t a hok hd
    obtain ⟨_, hfirst, hrest⟩ := bind_ok hok
    have hout : (((b :: bs).forM f) t).out = (f b t).out ++ ((bs.forM f) (f b t).names).out := bind_out hfirst _
    rw [hout, List.flatMap_append, List.mem_append] at hd
    rcases hd with hd | hd
    · exact ⟨b, List.mem_cons_self, h b List.mem_cons_self t _ hfirst hd⟩
    · obtain ⟨c, hc, hp⟩ := ih (fun c hc => h c (List.mem_cons_of_mem _ hc)) _ _ hrest hd
      exact ⟨c, List.mem_cons_of_mem _ hc, hp⟩

/-! ### Plans of which nothing is seen -/

/-- A view sees nothing of what the plan emits, if it succeeds. -/
class Unseen (look : ω → List δ) (x : Plan ω α) : Prop where
  lists : Lists look x []

theorem Unseen.sees [h : Unseen look x] {d : δ} {P : Prop} : Sees look x fun seen => d ∈ seen → P := by
  intro t a hok hd
  rw [h.lists t a hok] at hd
  cases hd

instance (a : α) : Unseen look (pure a : Plan ω α) := ⟨lists_pure a⟩

instance (a : α) : Unseen look (Plan.pure a : Plan ω α) := ⟨lists_pure a⟩

instance (f : α → Plan ω β) [hx : Unseen look x] [hf : ∀ a, Unseen look (f a)] : Unseen look (x >>= f) :=
  ⟨hx.lists.after fun a => (hf a).lists⟩

instance (y : Plan ω β) [hx : Unseen look x] [hy : Unseen look y] : Unseen look (x >>= fun _ => y) :=
  ⟨hx.lists.after fun _ => hy.lists⟩

instance (e : Except Error α) : Unseen look (liftM e : Plan ω α) := ⟨lists_ofExcept e⟩

instance (cx : Context) (id : ShapeId) : Unseen look (cx.symbol id : Plan ω Symbol) := ⟨lists_symbol cx id⟩

instance (c : Prop) [Decidable c] (y : Plan ω α) [hx : Unseen look x] [hy : Unseen look y] :
    Unseen look (if c then x else y) := ⟨hx.lists.ite hy.lists⟩

instance (c : Bool) (x : Plan ω Unit) [hx : Unseen look x] : Unseen look (onlyIf c x) :=
  ⟨hx.lists.onlyIf.congr (ite_self _)⟩

instance (bs : List β) (f : β → Plan ω PUnit) [hf : ∀ b, Unseen look (f b)] : Unseen look (bs.forM f) :=
  ⟨(lists_forM fun b _ => (hf b).lists).congr (by simp)⟩

section Steps

variable {look : Step → List δ} [h : Step.Shallow look] {body : Plan Step Unit} (template : String) (args : List Arg)

instance : Unseen look (line template args) := ⟨(lists_emit _).congr (h.line _ _)⟩

instance : Unseen look newline := ⟨newline_lists h.toPlain⟩

instance : Unseen look separate := ⟨(newline_lists h.toPlain).after fun _ => newline_lists h.toPlain⟩

instance (text : String) : Unseen look (docs text) := ⟨(lists_emit _).congr (h.docs _)⟩

instance (text : Option String) : Unseen look (leadingDocs text) := ⟨leadingDocs_lists h.toPlain text⟩

instance (text : Option String) : Unseen look (trailingDocs text) := ⟨trailingDocs_lists h.toPlain text⟩

instance (here : String) (s : Symbol) : Unseen look (reference here s) := ⟨reference_lists h.toPlain here s⟩

instance (s : Symbol) : Unseen look (emit (.importSymbol s)) := ⟨(lists_emit _).congr (h.imports s)⟩

instance : Unseen look (block template args body) := ⟨lists_within fun _ => h.block _ _ _⟩

end Steps

section Classes

variable {look : Step → List δ} {body : Plan Step Unit} (name template : String) (args : List Arg) (place : Section)

instance [h : Unseen look body] : Unseen (Step.inClasses look) (define .classDef name template args body) :=
  ⟨h.lists.define⟩

instance : Unseen (Step.inClasses look) (define .function name template args body) := ⟨lists_within fun _ => rfl⟩

instance : Unseen (Step.inClasses look) (define .value name template args body) := ⟨lists_within fun _ => rfl⟩

instance (module : String) : Unseen (Step.inClasses look) (emit (.importModule module)) := ⟨lists_emit _⟩

instance (d : Declarator) : Unseen (Step.inClasses look) (defineLine d name template args) := by
  constructor
  cases d <;> exact lists_emit _

instance [h : Unseen (Step.inClasses look) body] : Unseen (Step.inClasses look) (scope place body) := ⟨h.lists.scope⟩

instance (s : Symbol) [h : Unseen (Step.inClasses Step.fieldDefaults) body] : Unseen Edit.fieldDefaults (edit s body) :=
  ⟨h.lists.edit s⟩

instance : Unseen Step.fieldDefaults (scope place body) := ⟨lists_within fun _ => rfl⟩

/-- The field has no default, or one that its template spells out. -/
instance (arg : Arg) : Unseen Step.fieldDefaults (defineLine .value name template [arg]) := by
  refine ⟨(lists_emit _).congr ?_⟩
  unfold Step.fieldDefaults
  split <;> simp_all

instance : Unseen Step.fieldDefaults (defineLine .value name template []) := by
  refine ⟨(lists_emit _).congr ?_⟩
  unfold Step.fieldDefaults
  split <;> simp_all

end Classes

end Plan

namespace Package

open Plan Naming

variable (cx : Context) (here : String)

/-! ### Everything but structures -/

instance (shape : Shape) (withMembers : Bool) :
    Unseen (Step.inClasses Step.fieldDefaults) (schemaConstant cx shape withMembers) := by
  unfold schemaConstant
  infer_instance

instance : Unseen Edit.fieldDefaults (schemaShells cx) := by
  unfold schemaShells schemaShell
  infer_instance

instance (shape : Shape) : Unseen Edit.fieldDefaults (schema cx shape) := by
  unfold schema
  infer_instance

instance (shape : Shape) : Unseen Edit.fieldDefaults (collection cx shape) := by
  unfold collection
  refine ⟨(lists_symbol cx _).after fun symbol => ?_⟩
  have hfunctions : ∀ writer reader hint,
      Unseen (Step.inClasses Step.fieldDefaults) (collectionFunctions cx shape.kind writer reader hint) := by
    intro writer reader hint
    unfold collectionFunctions listWriter listReader mapWriter mapReader
    split <;> infer_instance
  split
  · exact Unseen.lists
  · exact lists_pure _

instance (shape : Shape) (values : List EnumValue) : Unseen Edit.fieldDefaults (enumClass cx shape values) := by
  unfold enumClass enumConstant
  infer_instance

instance (m : Member) (variant schema : Symbol) :
    Unseen (Step.inClasses Step.fieldDefaults) (variantClass cx here m variant schema) := by
  unfold variantClass memberSchema typeHint
  dsimp only
  infer_instance

instance (schema : Symbol) (members : List Member) :
    Unseen (Step.inClasses Step.fieldDefaults) (variantClasses cx here schema members) := by
  induction members with
  | nil => exact inferInstanceAs (Unseen _ (pure _))
  | cons m rest ih =>
    unfold variantClasses
    infer_instance

instance (unknown : Symbol) : Unseen (Step.inClasses Step.fieldDefaults) (unknownClass unknown) := by
  unfold unknownClass
  dsimp only
  infer_instance

instance (shape : Shape) (members : List Member) : Unseen Edit.fieldDefaults (unionClasses cx shape members) := by
  unfold unionClasses unionAlias unionReader
  infer_instance

instance : Unseen Edit.fieldDefaults (preamble cx) := by
  unfold preamble timestampConstant serviceErrorClass apiErrorClass unknownApiErrorClass
  infer_instance

instance (protocol : Option Protocol) (shape : Shape) (op : Operation) :
    Unseen Step.fieldDefaults (operationMethod cx here protocol shape op) := by
  have hvalue : ∀ id, Unseen Step.fieldDefaults (cx.operationValue id : Plan Step (Option Symbol)) := by
    intro id
    unfold Context.operationValue
    split <;> infer_instance
  have hresult : ∀ s, Unseen Step.fieldDefaults (referenceOrNone here s) := by
    intro s
    unfold referenceOrNone
    split <;> infer_instance
  have hinput : ∀ s, Unseen Step.fieldDefaults (inputParameter here s) := by
    intro s
    unfold inputParameter
    split <;> infer_instance
  unfold operationMethod transferFunctions
  split <;> infer_instance

instance (protocol : Option Protocol) : Unseen Edit.fieldDefaults (clientClass cx protocol) := by
  unfold clientClass executeMethod
  dsimp only
  infer_instance

/-! ### The defaults of members -/

/-- The target is a timestamp, declared or of the prelude. -/
def IsTimestamp (target : ShapeId) : Prop :=
  ∃ shape, cx.model.get? target = some shape ∧ shape.kind = .scalar .timestamp

/-- A text with a character that the name of the constant has not. -/
theorem ne_constant {c : Char} {text : String} (h : c ∈ text.toList) (hc : c ∈ ['(', '.', '"']) :
    text ≠ "_DEFAULT_TIMESTAMP" := by
  rintro rfl
  have hnone : ∀ c ∈ ['(', '.', '"'], c ∉ "_DEFAULT_TIMESTAMP".toList := by simp
  exact hnone c hc h

theorem literal_ne_constant (v : Json) : v.literal ≠ "_DEFAULT_TIMESTAMP" := by
  intro h
  have hread := Literal.read_literal v
  rw [h] at hread
  have hnone : Literal.read "_DEFAULT_TIMESTAMP" = none := by decide +kernel
  rw [hnone] at hread
  cases hread

/-- **The default of a member is the constant only if its target is a timestamp.** -/
theorem defaultExpression_gives (target : ShapeId) (v : Json) : Gives (defaultExpression cx here target v)
    fun text => text = "_DEFAULT_TIMESTAMP" → IsTimestamp cx target := by
  have hother : ∀ {text : String} (c : Char), c ∈ text.toList → c ∈ ['(', '.', '"'] →
      Gives (pure text : Plan Step String) fun text => text = "_DEFAULT_TIMESTAMP" → IsTimestamp cx target :=
    fun c hc hmem => gives_pure fun heq => absurd heq (ne_constant hc hmem)
  have hfactory : ∀ factory, Gives (factoryDefault here factory)
      fun text => text = "_DEFAULT_TIMESTAMP" → IsTimestamp cx target :=
    fun factory => Gives.after fun field => hother '(' (by simp) (by simp)
  refine gives_known fun shape hshape => ?_
  have hget := Model.expect_eq_ok.1 hshape
  -- every other branch gives a text that the name of the constant cannot be
  split
  · exact hfactory _
  · exact hfactory _
  · exact hfactory _
  · exact Gives.after fun _ => Gives.after fun _ => Gives.after fun _ => hother '.' (by simp) (by simp)
  · rename_i hkind
    exact fun t a _ _ => ⟨shape, hget, hkind⟩
  · split
    · exact hother '"' (by decide) (by simp)
    · exact Gives.after fun _ => hother '(' (by simp) (by simp)
  · exact Gives.after fun _ => hother '(' (by simp) (by simp)
  · exact Gives.after fun _ => Gives.after fun _ => hother '(' (by simp) (by simp)
  · exact gives_pure fun heq => absurd heq (literal_ne_constant _)

theorem memberField_sees (m : Member) : Sees Step.fieldDefaults (memberField cx here m)
    fun seen => "_DEFAULT_TIMESTAMP" ∈ seen → IsTimestamp cx m.target := by
  have hplain := (inferInstance : Step.Shallow Step.fieldDefaults).toPlain
  have hhint : Unseen Step.fieldDefaults (typeHint cx here m.target (isOptional m)) := by
    unfold typeHint
    dsimp only
    infer_instance
  have hdefault : Lists Step.fieldDefaults (memberDefault cx here m) [] := by
    unfold memberDefault
    split
    · exact lists_pure _
    · exact (defaultExpression_lists hplain cx here _ _).after fun _ => lists_pure _
  have hgiven : Gives (memberDefault cx here m)
      fun given => given = some "_DEFAULT_TIMESTAMP" → IsTimestamp cx m.target := by
    unfold memberDefault
    split
    · exact gives_pure (by simp)
    · intro t given hok heq
      obtain ⟨text, htext, hok⟩ := bind_ok hok
      cases hok
      exact defaultExpression_gives cx here _ _ _ text htext (Option.some.inj heq)
  refine Sees.after hhint.lists fun hint => Sees.given hdefault hgiven fun given h => ?_
  refine Sees.before ?_ fun _ => Unseen.lists
  intro t _ _ hmem
  cases given with
  | some text =>
    cases List.mem_singleton.1 hmem
    exact h rfl
  | none =>
    -- the field has the default `None`, or none
    by_cases hoptional : isOptional m = true
    · rw [if_pos hoptional] at hmem
      exact absurd (List.mem_singleton.1 hmem) (by decide)
    · rw [if_neg hoptional] at hmem
      cases hmem

/-! ### Structures and runs -/

theorem structureClass_sees (shape : Shape) (members : List Member) :
    Sees Edit.fieldDefaults (structureClass cx shape members)
      fun seen => "_DEFAULT_TIMESTAMP" ∈ seen → ∃ m ∈ members, IsTimestamp cx m.target := by
  refine Sees.after (lists_symbol cx _) fun symbol => Sees.after (lists_ofExcept _) fun schema => ?_
  have herror : Unseen Step.fieldDefaults (errorFields shape) :=
    ⟨(lists_ofExcept _).after fun _ => Lists.after (lists_emit _) fun _ => Lists.after (lists_emit _) fun _ =>
      Unseen.lists⟩
  have hbody : Sees Step.fieldDefaults (structureBody cx symbol.ns shape members schema)
      fun seen => "_DEFAULT_TIMESTAMP" ∈ seen → ∃ m ∈ members, IsTimestamp cx m.target := by
    have hfields := Sees.forM_mem fun m (_ : m ∈ fieldOrder members) => memberField_sees cx symbol.ns m
    refine Sees.after Unseen.lists fun _ => Sees.after Unseen.lists fun _ => Sees.before ?_ fun _ => Unseen.lists
    refine hfields.imp fun seen h hmem => ?_
    obtain ⟨m, hm, htarget⟩ := h hmem
    exact ⟨m, (fieldOrder_perm members).mem_iff.1 hm, htarget⟩
  refine Sees.edit (Sees.before ?_ fun _ => Unseen.lists) symbol
  refine Sees.within (fun out => Step.inClassesAll_eq _ out) (Sees.after Unseen.lists fun _ => ?_)
  split <;> exact hbody.within fun _ => rfl

theorem shapeDeclarations_sees (shape : Shape) : Sees Edit.fieldDefaults (shapeDeclarations cx shape)
    fun seen => "_DEFAULT_TIMESTAMP" ∈ seen → ∃ m ∈ shape.members, IsTimestamp cx m.target := by
  unfold shapeDeclarations
  split
  · exact Unseen.sees
  obtain ⟨id, kind, traits⟩ := shape
  cases kind with
  | struct members => exact Sees.after Unseen.lists fun _ => structureClass_sees cx _ members
  | _ => exact Unseen.sees

/-- **A default is the constant only if the model has a timestamp.** -/
theorem typeEdits_sees (hplaced : cx.Placed) : Sees Edit.fieldDefaults (typeEdits cx)
    fun seen => "_DEFAULT_TIMESTAMP" ∈ seen → hasTimestamp cx.model = true := by
  have hshapes : ∀ id ∈ cx.order.all, Sees Edit.fieldDefaults (cx.shape id >>= fun shape => shapeDeclarations cx shape)
      fun seen => "_DEFAULT_TIMESTAMP" ∈ seen → hasTimestamp cx.model = true := by
    intro id hid
    refine sees_known fun shape hshape => (shapeDeclarations_sees cx shape).imp fun seen h hmem => ?_
    obtain ⟨m, hm, target, htarget, hkind⟩ := h hmem
    obtain ⟨shape', hmem', -, hget⟩ := hplaced id hid
    cases (Model.expect_eq_ok.1 hshape).symm.trans hget
    exact hasTimestamp_of_member (List.mem_flatMap.2 ⟨shape, hmem', hm⟩) htarget hkind
  -- the preamble and the shells of schemas come first and have no such fields
  refine Sees.after Unseen.lists fun _ => Sees.after Unseen.lists fun _ => ?_
  refine (Sees.forM_mem hshapes).imp fun seen h hmem => ?_
  obtain ⟨id, -, htimestamp⟩ := h hmem
  exact htimestamp

/-- The defaults of the fields in the models module. -/
def modelsDefaults (package : String) (e : Edit) : List String :=
  if e.path = moduleFile package modelsModule then e.fieldDefaults else []

/-- Other modules are in other files. -/
theorem unseen_elsewhere (sub : String) (hsub : sub ∈ submodules ∧ sub ≠ modelsModule) {s : Symbol}
    (hs : s.file = some (moduleFile cx.package sub)) (body : Plan Step Unit) :
    Unseen (modelsDefaults cx.package) (edit s body) := by
  constructor
  unfold edit
  rw [hs]
  refine lists_within fun out => if_neg fun hpath => hsub.2 ?_
  exact moduleFile_inj hsub.1 (by decide) hpath

theorem clientEdits_unseen (protocol : Option Protocol) (plugins : List Plugin) :
    Unseen (modelsDefaults cx.package) (clientEdits cx protocol plugins) := by
  have hprotocol : Unseen (modelsDefaults cx.package) (protocolModules cx protocol) := by
    unfold protocolModules protocolModule
    have hwrite := fun name =>
      unseen_elsewhere cx serializeModule (by decide) (s := declared cx.package name serializeModule) rfl
    have hread := fun name =>
      unseen_elsewhere cx deserializeModule (by decide) (s := declared cx.package name deserializeModule) rfl
    split <;> infer_instance
  have hauth := unseen_elsewhere cx authModule (by decide) (s := authResolver cx.package) rfl
  have hconfig := unseen_elsewhere cx configModule (by decide) (s := config cx.package) rfl
  -- the file of the client is not looked at: none of its fields has a default
  have hclient : Unseen (modelsDefaults cx.package) (clientClass cx protocol) := by
    refine ⟨fun t a hok => List.flatMap_eq_nil_iff.2 fun e he => ?_⟩
    have hnone : (clientClass cx protocol t).out.flatMap Edit.fieldDefaults = [] := Unseen.lists t a hok
    unfold modelsDefaults
    rw [List.flatMap_eq_nil_iff.1 hnone e he, ite_self]
  unfold clientEdits authSchemes configClass
  dsimp only
  infer_instance

/-- The edit that a run starts with. -/
theorem preamble_out (t : Table) : ∃ start, (preamble cx t).out = [start] ∧ (preamble cx t).result = .ok () ∧
    start.path = moduleFile cx.package modelsModule ∧
    (hasTimestamp cx.model = true → .define .value "_DEFAULT_TIMESTAMP" " = $T(1970, 1, 1, tzinfo=$T)"
      [Library.datetime, Library.utc] [] ∈ start.script) := by
  unfold preamble
  cases hasTimestamp cx.model with
  | false => exact ⟨_, rfl, rfl, rfl, by simp⟩
  | true => exact ⟨_, rfl, rfl, rfl, fun _ => .tail _ (.tail _ (.tail _ (.tail _ (.head _))))⟩

theorem packageEdits_sees (hplaced : cx.Placed) (protocol : Option Protocol) (plugins : List Plugin) :
    Sees (modelsDefaults cx.package) (packageEdits cx protocol plugins)
      fun seen => "_DEFAULT_TIMESTAMP" ∈ seen → hasTimestamp cx.model = true := by
  have hclient := clientEdits_unseen cx protocol plugins
  refine Sees.before ?_ fun _ => ?_
  · intro t a hok hmem
    refine typeEdits_sees cx hplaced t a hok ?_
    obtain ⟨e, he, hd⟩ := List.mem_flatMap.1 hmem
    unfold modelsDefaults at hd
    split at hd
    · exact List.mem_flatMap.2 ⟨e, he, hd⟩
    · cases hd
  · split <;> exact Unseen.lists

/-- **The constant is defined before it is used.** With the integrations that come with the generator,
1. generation succeeds only if there is a run for the model and its plan succeeds;
2. the first edit of such a run is the start of the models module. A field in the models module whose default is the
   constant is written by a later edit, and then the first one defines the constant. -/
theorem timestamp_defined_first (m : Model) (settings : Settings) :
    (∀ files, generate [] m settings = .ok files → ∃ run client, Run.of [] m settings = .ok run ∧
      (run.plan {}).result = .ok client) ∧
    ∀ run client, Run.of [] m settings = .ok run → (run.plan {}).result = .ok client → ∃ start rest,
      run.edits = start :: rest ∧ start.path = moduleFile settings.module modelsModule ∧
      ∀ e ∈ run.edits, e.path = moduleFile settings.module modelsModule → "_DEFAULT_TIMESTAMP" ∈ e.fieldDefaults →
        e ∈ rest ∧ .define .value "_DEFAULT_TIMESTAMP" " = $T(1970, 1, 1, tzinfo=$T)"
          [Library.datetime, Library.utc] [] ∈ start.script := by
  constructor
  · intro files h
    obtain ⟨run, hrun, -⟩ := bind_ok_iff.1 h
    obtain ⟨client, hplan⟩ := plan_of_generate hrun h
    exact ⟨run, client, hrun, hplan⟩
  intro run client hrun hplan
  have hprepared := prepare_ok (Run.of_ok hrun).context
  have hpackage : run.cx.package = settings.module := by rw [Context.package, hprepared.settings]
  have hplaced : run.cx.Placed := fun id hid => order_placed hprepared.order hid
  obtain ⟨_, htypes, hclient⟩ := bind_ok hplan
  obtain ⟨start, hstart, hok, hpath, hdefines⟩ := preamble_out run.cx {}
  have hedits : ∃ rest, run.edits = start :: rest := by
    unfold Run.edits Run.plan packageEdits
    rw [bind_out htypes]
    unfold typeEdits
    rw [bind_out hok, hstart]
    exact ⟨_, rfl⟩
  obtain ⟨rest, hedits⟩ := hedits
  rw [← hpackage]
  refine ⟨start, rest, hedits, hpath, fun e he hfile hdefault => ?_⟩
  constructor
  · -- the first edit has no such field
    rw [hedits] at he
    refine (List.mem_cons.1 he).resolve_left ?_
    rintro rfl
    have hnone : (preamble run.cx {}).out.flatMap Edit.fieldDefaults = [] := Unseen.lists _ _ hok
    rw [hstart, List.flatMap_singleton] at hnone
    rw [hnone] at hdefault
    cases hdefault
  · -- the default comes of a member, so the model has a timestamp
    refine hdefines (packageEdits_sees run.cx hplaced _ _ _ client hplan (List.mem_flatMap.2 ⟨e, he, ?_⟩))
    unfold modelsDefaults
    rwa [if_pos hfile]

/-- A structure with a timestamp of the prelude and one that is declared. -/
def timesShape : Shape where
  id := { ns := "a", name := "T" }
  kind := .struct [
    { id := { ns := "a", name := "T", member := some "m" }, target := .prelude "Timestamp",
      traits := ⟨[(TraitId.default, .int 0)]⟩ },
    { id := { ns := "a", name := "T", member := some "n" }, target := { ns := "a", name := "D" },
      traits := ⟨[(TraitId.default, .int 0)]⟩ }]

def timesService : Shape where
  id := sampleSettings.service
  kind := .service { operations := [{ ns := "a", name := "O" }] }

def timesModel : Model where
  shapes := [timesService, { id := { ns := "a", name := "O" }, kind := .operation { input := some timesShape.id } },
    timesShape, { id := { ns := "a", name := "D" }, kind := .scalar .timestamp }]
  distinct := by decide

def timesRun : Run where
  integrations := [httpAuth]
  cx := {
    model := timesModel
    settings := sampleSettings
    provider := { package := "p" }
    order := ⟨[{ ns := "a", name := "D" }, timesShape.id, { ns := "a", name := "O" }, timesService.id], []⟩
    service := timesService }
  plugins := httpAuth.plugins
  protocol := none

/-- Both have the constant for their default. -/
theorem timestamp_defined_for_both : Run.of [] timesModel sampleSettings = .ok timesRun ∧
    (∃ client, (timesRun.plan {}).result = .ok client) ∧ ∃ start rest, timesRun.edits = start :: rest ∧
      (∃ e ∈ rest, e.fieldDefaults = ["_DEFAULT_TIMESTAMP", "_DEFAULT_TIMESTAMP"]) ∧
      .define .value "_DEFAULT_TIMESTAMP" " = $T(1970, 1, 1, tzinfo=$T)" [Library.datetime, Library.utc] [] ∈
        start.script := by
  have hrun : Run.of [] timesModel sampleSettings = .ok timesRun := by cbv
  have hplan : ∃ client, (timesRun.plan {}).result = .ok client := exists_ok_of_isSome (by decide +kernel)
  refine ⟨hrun, hplan, ?_⟩
  obtain ⟨client, hplan⟩ := hplan
  obtain ⟨start, rest, hedits, -, hdefined⟩ :=
    (timestamp_defined_first timesModel sampleSettings).2 timesRun client hrun hplan
  have huse : ∃ e ∈ timesRun.edits, e.path = moduleFile sampleSettings.module modelsModule ∧
      e.fieldDefaults = ["_DEFAULT_TIMESTAMP", "_DEFAULT_TIMESTAMP"] := by decide +kernel
  obtain ⟨e, he, hpath, hdefaults⟩ := huse
  obtain ⟨hrest, hstart⟩ := hdefined e he hpath (hdefaults ▸ List.mem_cons_self)
  exact ⟨start, rest, hedits, ⟨e, hrest, hdefaults⟩, hstart⟩

end Package

end ClientGen
