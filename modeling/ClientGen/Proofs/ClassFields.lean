import ClientGen.Proofs.NameWords

/-!
# Fields and constants of a class

The names in a class come from the names of members and values by a style, and nothing keeps two of them apart.

* `structureClass_distinct`: which attributes a structure has and which keyword arguments it reads. **Each is distinct
  exactly if the names of the members differ in their words**, and for an error none is the code or the fault.
* `enumClass_distinct`: the same for the constants of an enumeration, and what the constant of a default denotes.
-/

namespace ClientGen

/-! ### Views of a class -/

variable {δ : Type}

mutual

/-- What is seen in the classes that a step defines. -/
def Step.inClasses (look : Step → List δ) : Step → List δ
  | .define .classDef _ _ _ body => body.flatMap look
  | .scope _ body => Step.inClassesAll look body
  | _ => []

def Step.inClassesAll (look : Step → List δ) : List Step → List δ
  | [] => []
  | s :: rest => Step.inClasses look s ++ Step.inClassesAll look rest

end

mutual

/-- The keys under which a step puts what it reads into the keyword arguments. -/
def Step.keys : Step → List String
  | .line "kwargs[$S] = $C" (.literal key :: _) => [key]
  | .block _ _ body => Step.keysAll body
  | .define _ _ _ _ body => Step.keysAll body
  | .scope _ body => Step.keysAll body
  | _ => []

def Step.keysAll : List Step → List String
  | [] => []
  | s :: rest => Step.keys s ++ Step.keysAll rest

end

/-- The constants that a step defines, with their texts. -/
def Step.constants : Step → List (String × String)
  | .define .value name " = $S" [.literal text] _ => [(name, text)]
  | _ => []

theorem Step.inClassesAll_eq (look : Step → List δ) (steps : List Step) :
    Step.inClassesAll look steps = steps.flatMap (Step.inClasses look) := by
  induction steps with
  | nil => rfl
  | cons s rest ih => rw [inClassesAll, ih, List.flatMap_cons]

theorem Step.keysAll_eq (steps : List Step) : Step.keysAll steps = steps.flatMap Step.keys := by
  induction steps with
  | nil => rfl
  | cons s rest ih => rw [keysAll, ih, List.flatMap_cons]

/-- The names that are defined in classes. -/
def Edit.attributes (e : Edit) : List String := e.script.flatMap (Step.inClasses Step.definitions)

def Edit.keys (e : Edit) : List String := e.script.flatMap Step.keys

/-- The constants that are defined in classes. -/
def Edit.constants (e : Edit) : List (String × String) := e.script.flatMap (Step.inClasses Step.constants)

/-! ### Views of a plan -/

namespace Plan

variable {ω α β γ : Type} {look : ω → List δ} {seen seen' : List δ}

/-- What is seen of all that a plan emits, if it succeeds. -/
def Lists (look : ω → List δ) (x : Plan ω α) (seen : List δ) : Prop :=
  ∀ t a, (x t).result = .ok a → (x t).out.flatMap look = seen

theorem Lists.congr {x : Plan ω α} (h : Lists look x seen) (heq : seen = seen') : Lists look x seen' := heq ▸ h

theorem lists_pure (a : α) : Lists look (pure a : Plan ω α) [] := fun _ _ _ => rfl

theorem lists_fail (e : Error) : Lists look (fail e : Plan ω α) seen := by
  intro t a h
  cases h

theorem lists_emit (w : ω) : Lists look (emit w) (look w) := fun _ _ _ => List.flatMap_singleton look w

theorem lists_ofExcept (e : Except Error α) : Lists look (liftM e : Plan ω α) [] := fun _ _ _ => rfl

theorem lists_symbol (cx : Context) (id : ShapeId) : Lists look (cx.symbol id : Plan ω Symbol) [] := fun _ _ _ => rfl

theorem Lists.seq {x : Plan ω α} {f : α → Plan ω β} (hx : Lists look x seen) (hf : ∀ a, Lists look (f a) seen') :
    Lists look (x >>= f) (seen ++ seen') := by
  intro t b h
  simp only [Bind.bind, Plan.bind] at h ⊢
  cases hr : (x t).result with
  | error e =>
    rw [hr] at h
    cases h
  | ok a =>
    simp only [hr] at h ⊢
    rw [List.flatMap_append, hx t a hr, hf a _ b h]

theorem Lists.after {x : Plan ω α} {f : α → Plan ω β} (hx : Lists look x []) (hf : ∀ a, Lists look (f a) seen) :
    Lists look (x >>= f) seen := hx.seq hf

theorem Lists.onlyIf {c : Bool} {x : Plan ω Unit} (h : Lists look x seen) :
    Lists look (onlyIf c x) (if c then seen else []) := by
  cases c with
  | true => exact h
  | false => exact lists_pure ()

theorem Lists.ite {c : Prop} [Decidable c] {x y : Plan ω α} (hx : Lists look x seen) (hy : Lists look y seen) :
    Lists look (if c then x else y) seen := by
  split
  · exact hx
  · exact hy

theorem lists_forM {bs : List β} {f : β → Plan ω PUnit} {one : β → List δ} (h : ∀ b ∈ bs, Lists look (f b) (one b)) :
    Lists look (bs.forM f) (bs.flatMap one) := by
  induction bs with
  | nil => exact lists_pure PUnit.unit
  | cons b bs ih => exact (h b List.mem_cons_self).seq fun _ => ih fun c hc => h c (List.mem_cons_of_mem _ hc)

theorem Lists.within {look' : Step → List γ} {inner : List γ} {body : Plan Step Unit} {wrap : Script → ω}
    (h : Lists look' body inner) (hwrap : ∀ out, out.flatMap look' = inner → look (wrap out) = seen) :
    Lists look (within body wrap) seen := by
  intro t a hok
  unfold Plan.within at hok ⊢
  cases hr : (body t).result with
  | error e =>
    simp only [hr] at hok
    cases hok
  | ok b =>
    simp only [hr]
    rw [List.flatMap_singleton]
    exact hwrap _ (h t b hr)

theorem lists_within {body : Plan Step Unit} {wrap : Script → ω} (hwrap : ∀ out, look (wrap out) = seen) :
    Lists look (Plan.within body wrap) seen := by
  have hnothing : Lists (fun _ => ([] : List Unit)) body [] := fun t _ _ => by simp
  exact hnothing.within fun out _ => hwrap out

theorem Lists.edit {look : Step → List δ} {body : Plan Step Unit} (h : Lists look body seen) (s : Symbol) :
    Lists (fun e : Edit => e.script.flatMap look) (edit s body) seen := by
  unfold Plan.edit
  split
  · exact h.within fun _ hout => hout
  · exact lists_fail _

theorem edit_single (s : Symbol) (body : Plan Step Unit) : Lists (fun _ : Edit => [()]) (edit s body) [()] := by
  unfold Plan.edit
  split
  · exact lists_within fun _ => rfl
  · exact lists_fail _

theorem Lists.exists_eq {x : Plan ω α} (h : Lists (fun _ => [()]) x [()]) {t : Table} {a : α}
    (hok : (x t).result = .ok a) : ∃ w, (x t).out = [w] := by
  have hlength := congrArg List.length (h t a hok)
  rw [List.length_flatMap] at hlength
  exact List.length_eq_one_iff.1 (by simpa using hlength)

section Classes

variable {look : Step → List δ} {body : Plan Step Unit} {name template : String} {args : List Arg} {place : Section}

theorem Lists.define (h : Lists look body seen) :
    Lists (Step.inClasses look) (define .classDef name template args body) seen :=
  h.within fun _ hout => hout

theorem Lists.scope (h : Lists (Step.inClasses look) body seen) : Lists (Step.inClasses look) (scope place body) seen :=
  h.within fun out hout => (Step.inClassesAll_eq look out).trans hout

end Classes

section Keys

variable {body : Plan Step Unit} {keys : List String} {wrap : Script → Step}

theorem Lists.inside (h : Lists Step.keys body keys) (hwrap : ∀ out, Step.keys (wrap out) = Step.keysAll out) :
    Lists Step.keys (Plan.within body wrap) keys :=
  h.within fun out hout => (hwrap out).trans ((Step.keysAll_eq out).trans hout)

theorem Lists.block {template : String} {args : List Arg} (h : Lists Step.keys body keys) :
    Lists Step.keys (block template args body) keys :=
  h.inside fun _ => rfl

end Keys

end Plan

/-- A view that sees nothing in documentation, empty lines and imports. -/
structure Step.Plain (look : Step → List δ) : Prop where
  docs : ∀ text, look (.docs text) = []
  newline : look .newline = []
  imports : ∀ s, look (.importSymbol s) = []

/-- Of a definition in one line such a view sees the name. -/
structure Step.Field (look : Step → List δ) (field : String → List δ) : Prop extends Step.Plain look where
  define : ∀ name template args, look (.define .value name template args []) = field name

theorem Step.field_definitions : Step.Field Step.definitions fun name => [name] where
  docs _ := rfl
  newline := rfl
  imports _ := rfl
  define _ _ _ := rfl

theorem Step.field_keys : Step.Field Step.keys fun _ => [] where
  docs _ := rfl
  newline := rfl
  imports _ := rfl
  define _ _ _ := rfl

theorem Step.plain_constants : Step.Plain Step.constants where
  docs _ := rfl
  newline := rfl
  imports _ := rfl

namespace Package

open Plan

/-! ### Fields -/

section Fields

variable {look : Step → List δ}

section Plain

variable (hlook : Step.Plain look)

include hlook

theorem newline_lists : Lists look newline [] := (lists_emit _).congr hlook.newline

theorem leadingDocs_lists (text : Option String) : Lists look (leadingDocs text) [] := by
  unfold leadingDocs
  split
  · exact ((lists_emit _).congr (hlook.docs _)).after fun _ => newline_lists hlook
  · exact lists_pure ()

theorem trailingDocs_lists (text : Option String) : Lists look (trailingDocs text) [] := by
  unfold trailingDocs
  split
  · exact (lists_emit _).congr (hlook.docs _)
  · exact lists_pure ()

theorem reference_lists (here : String) (s : Symbol) : Lists look (reference here s) [] :=
  ((lists_emit _).congr (hlook.imports s)).after fun _ => lists_pure _

theorem timestampDefault_lists (cx : Context) (here : String) (v : Json) :
    Lists look (timestampDefault cx here v) [] := by
  unfold timestampDefault
  split
  · exact reference_lists hlook here _
  · split
    · exact (reference_lists hlook here _).after fun _ => (reference_lists hlook here _).after fun _ => lists_pure _
    · exact (reference_lists hlook here _).after fun _ => (reference_lists hlook here _).after fun _ => lists_pure _
    · exact (reference_lists hlook here _).after fun _ => lists_pure _
    · exact lists_fail _

theorem defaultExpression_lists (cx : Context) (here : String) (target : ShapeId) (v : Json) :
    Lists look (defaultExpression cx here target v) [] := by
  have hfactory : ∀ factory, Lists look (factoryDefault here factory) [] := fun factory =>
    (reference_lists hlook here _).after fun _ => lists_pure _
  refine (lists_ofExcept _).after fun shape => ?_
  split
  · exact hfactory _
  · exact hfactory _
  · exact hfactory _
  · exact (lists_symbol cx _).after fun _ => (reference_lists hlook here _).after fun _ => (lists_ofExcept _).after
      fun _ => lists_pure _
  · exact timestampDefault_lists hlook cx here _
  · split
    · exact lists_pure _
    · exact (reference_lists hlook here _).after fun _ => lists_pure _
  · exact (reference_lists hlook here _).after fun _ => lists_pure _
  · exact (reference_lists hlook here _).after fun _ => (reference_lists hlook here _).after fun _ => lists_pure _
  · exact lists_pure _

end Plain

variable {field : String → List δ} (hlook : Step.Field look field)

include hlook

theorem memberField_lists (cx : Context) (here : String) (m : Member) :
    Lists look (memberField cx here m) (field (cx.memberName m)) := by
  have hhint : Lists look (typeHint cx here m.target (isOptional m)) [] :=
    (lists_symbol cx _).after fun _ => (reference_lists hlook.toPlain here _).after fun _ => lists_pure _
  have hdefault : Lists look (memberDefault cx here m) [] := by
    unfold memberDefault
    split
    · exact lists_pure _
    · exact (defaultExpression_lists hlook.toPlain cx here _ _).after fun _ => lists_pure _
  have hline : ∀ hint given, Lists look (fieldLine (cx.memberName m) hint given) (field (cx.memberName m)) := by
    intro hint given
    unfold fieldLine
    split
    · exact (lists_emit _).congr (hlook.define _ _ _)
    · exact (lists_emit _).congr (hlook.define _ _ _)
  exact (hhint.after fun _ => hdefault.after fun _ => (hline _ _).seq fun _ =>
    (trailingDocs_lists hlook.toPlain _).after fun _ => newline_lists hlook.toPlain).congr (List.append_nil _)

theorem errorFields_lists (s : Shape) : Lists look (errorFields s) (field "code" ++ field "fault") := by
  refine (lists_ofExcept _).after fun _ => Lists.congr (((lists_emit _).congr (hlook.define _ _ _)).seq fun _ =>
    ((lists_emit _).congr (hlook.define _ _ _)).seq fun _ => newline_lists hlook.toPlain) ?_
  rw [List.append_nil]

end Fields

/-! ### Structures -/

section Structures

variable (cx : Context) (here : String) (shape : Shape) (members : List Member) (schema : Symbol)

theorem structureBody_definitions : Lists Step.definitions (structureBody cx here shape members schema)
    ((if shape.isError then ["code", "fault"] else []) ++ (fieldOrder members).map cx.memberName) := by
  have hlook := Step.field_definitions
  have hline : ∀ template args, Lists Step.definitions (line template args) [] := fun _ _ => lists_emit _
  have hblock : ∀ template args body, Lists Step.definitions (block template args body) [] := fun _ _ _ =>
    lists_within fun _ => rfl
  have hnewline := newline_lists hlook.toPlain
  refine Lists.congr ((leadingDocs_lists hlook.toPlain _).after fun _ =>
    (errorFields_lists hlook shape).onlyIf.seq fun _ =>
    (lists_forM fun m _ => memberField_lists hlook cx here m).seq fun _ =>
    (hblock _ _ _).after fun _ => hnewline.after fun _ => (hblock _ _ _).after fun _ => hnewline.after fun _ =>
    (hline _ _).after fun _ => (hblock _ _ _).after fun _ => hnewline.after fun _ =>
    (hline _ _).after fun _ => hblock _ _ _) ?_
  rw [List.append_nil, List.map_eq_flatMap]
  rfl

theorem writeValue_keys (target : ShapeId) (serializer text value : String) :
    Lists Step.keys (writeValue cx target serializer text value) [] := by
  refine (lists_ofExcept _).after fun s => ?_
  obtain ⟨id, kind, traits⟩ := s
  cases kind with
  | scalar | enumeration | struct | union => exact lists_emit _
  | list | set | map =>
    refine (lists_symbol cx _).after fun s => ?_
    cases s.property? Symbol.serializerRole <;> exact lists_emit _
  | operation | service => exact lists_fail _

theorem memberSchema_keys (name : String) : Lists Step.keys (memberSchema here schema name) [] :=
  (reference_lists Step.field_keys.toPlain here schema).after fun _ => lists_pure _

theorem readMember_keys (index : Nat) (m : Member) :
    Lists Step.keys (readMember cx here schema index m) [cx.memberName m] := by
  refine (memberSchema_keys here schema m.name).after fun _ => ?_
  have hread : ∀ body, Lists Step.keys (lineWith "kwargs[$S] = $C" [cx.memberName m] body) [cx.memberName m] :=
    fun _ => lists_within fun _ => rfl
  exact (hread _).block.seq fun _ => newline_lists Step.field_keys.toPlain

theorem memberDispatch_keys :
    Lists Step.keys (memberDispatch cx here schema members) (members.map cx.memberName) := by
  have hnames : (members.zipIdx.flatMap fun b => [cx.memberName b.1]) ++ [] = members.map cx.memberName := by
    rw [List.append_nil, ← List.map_eq_flatMap, ← Function.comp_def, ← List.map_map, List.zipIdx_map_fst]
  have hunexpected : Lists Step.keys unexpectedMember [] := (lists_emit _).block
  have hcases := (lists_forM fun b (_ : b ∈ members.zipIdx) => readMember_keys cx here schema b.2 b.1).seq fun _ =>
    hunexpected
  exact (hcases.congr hnames).block

theorem writeMember_keys (m : Member) : Lists Step.keys (writeMember cx here schema m) [] := by
  refine (memberSchema_keys here schema m.name).after fun _ => ?_
  exact (writeValue_keys cx _ _ _ _).block.ite (writeValue_keys cx _ _ _ _)

theorem structureBody_keys :
    Lists Step.keys (structureBody cx here shape members schema) (members.map cx.memberName) := by
  have hlook := Step.field_keys
  -- fields and what writes members put nothing into the keyword arguments
  have hwrite : Lists Step.keys
      (if members.isEmpty then line "pass" [] else members.forM (writeMember cx here schema)) [] := by
    split
    · exact lists_emit _
    · exact (lists_forM fun m _ => writeMember_keys cx here schema m).congr (by simp)
  have hfields : Lists Step.keys ((fieldOrder members).forM (memberField cx here)) [] :=
    (lists_forM fun m _ => memberField_lists hlook cx here m).congr (by simp)
  have herror : Lists Step.keys (onlyIf shape.isError (errorFields shape)) [] :=
    (errorFields_lists hlook shape).onlyIf.congr (by simp)
  have hreturn : Lists Step.keys (line "return kwargs" []) [] := lists_emit _
  have hnewline := newline_lists hlook.toPlain
  exact Lists.congr ((leadingDocs_lists hlook.toPlain _).after fun _ => herror.after fun _ => hfields.after fun _ =>
    (lists_emit _).block.after fun _ => hnewline.after fun _ => hwrite.block.after fun _ => hnewline.after fun _ =>
    (lists_emit _).after fun _ => (lists_emit _).block.after fun _ => hnewline.after fun _ =>
    (lists_emit _).after fun _ => Lists.block <| (lists_emit _).after fun _ => hnewline.after fun _ =>
      (memberDispatch_keys cx here members schema).block.seq fun _ => hnewline.after fun _ =>
      (lists_emit _).after fun _ => hreturn) (List.append_nil _)

theorem structureClass_attributes : Lists Edit.attributes (structureClass cx shape members)
    ((if shape.isError then ["code", "fault"] else []) ++ (fieldOrder members).map cx.memberName) := by
  refine (lists_symbol cx _).after fun symbol => (lists_ofExcept _).after fun schema => Lists.edit ?_ symbol
  have hbody := structureBody_definitions cx symbol.ns shape members schema
  have hseparate : Lists (Step.inClasses Step.definitions) separate [] := (lists_emit _).after fun _ => lists_emit _
  exact ((Lists.scope ((lists_emit _).after fun _ => hbody.define.ite hbody.define)).seq fun _ => hseparate).congr
    (List.append_nil _)

theorem structureClass_keys : Lists Edit.keys (structureClass cx shape members) (members.map cx.memberName) := by
  refine (lists_symbol cx _).after fun symbol => (lists_ofExcept _).after fun schema => Lists.edit ?_ symbol
  have hbody := structureBody_keys cx symbol.ns shape members schema
  have hclass : ∀ name template args, Lists Step.keys
      (define .classDef name template args (structureBody cx symbol.ns shape members schema)) _ :=
    fun _ _ _ => hbody.inside fun _ => rfl
  have hseparate : Lists Step.keys separate [] := (lists_emit _).after fun _ => lists_emit _
  exact ((Lists.inside ((lists_emit _).after fun _ => (hclass _ _ _).ite (hclass _ _ _)) fun _ => rfl).seq
    fun _ => hseparate).congr (List.append_nil _)

end Structures

/-! ### Distinct names -/

section Distinct

open Text

/-- Distinctness by one property of the elements is distinctness by another that tells the same apart. -/
theorem nodup_map_iff {α β γ : Type} {f : α → β} {g : α → γ} (h : ∀ a b, f a = f b ↔ g a = g b) {l : List α} :
    (l.map f).Nodup ↔ (l.map g).Nodup := by
  unfold List.Nodup
  rw [List.pairwise_map, List.pairwise_map]
  exact List.Pairwise.iff fun {a b} => not_congr (h a b)

theorem nodup_words {α : Type} {f : α → String} {l : List α} (h : (l.map fun a => letters (f a)).Nodup) :
    (l.map fun a => words (f a)).Nodup := by
  refine List.Nodup.of_map String.join ?_
  rw [List.map_map]
  simpa [Function.comp_def, join_words] using h

theorem fieldOrder_perm (members : List Member) : (fieldOrder members).Perm members :=
  List.filter_append_perm _ members

theorem nodup_fields (error : Bool) (members : List Member) :
    ((if error then ["code", "fault"] else []) ++ (fieldOrder members).map fun m => Naming.memberName m.name).Nodup ↔
      (members.map fun m => words m.name).Nodup ∧
        (error = true → ∀ m ∈ members, words m.name ≠ ["code"] ∧ words m.name ≠ ["fault"]) := by
  have hperm := (fieldOrder_perm members).map fun m => Naming.memberName m.name
  have hwords : ((fieldOrder members).map fun m => Naming.memberName m.name).Nodup ↔
      (members.map fun m => words m.name).Nodup :=
    hperm.nodup_iff.trans (nodup_map_iff fun _ _ => Naming.memberName_eq_iff)
  have hcode : ∀ m : Member, Naming.memberName m.name = "code" ↔ words m.name = ["code"] := fun m =>
    @Naming.memberName_eq_iff m.name "code"
  have hfault : ∀ m : Member, Naming.memberName m.name = "fault" ↔ words m.name = ["fault"] := fun m =>
    @Naming.memberName_eq_iff m.name "fault"
  cases error with
  | false => simp [hwords]
  | true =>
    have hmem : ∀ name, name ∈ ((fieldOrder members).map fun m => Naming.memberName m.name) ↔
        ∃ m ∈ members, Naming.memberName m.name = name := by
      intro name
      rw [hperm.mem_iff, List.mem_map]
    rw [if_pos rfl, List.cons_append, List.cons_append, List.nil_append, List.nodup_cons, List.nodup_cons, hwords,
      List.mem_cons, hmem, hmem]
    simp only [hcode, hfault]
    constructor
    · rintro ⟨hnoCode, hnoFault, hnodup⟩
      exact ⟨hnodup, fun _ m hm => ⟨fun h => hnoCode (.inr ⟨m, hm, h⟩), fun h => hnoFault ⟨m, hm, h⟩⟩⟩
    · rintro ⟨hnodup, hfixed⟩
      refine ⟨?_, ?_, hnodup⟩
      · rintro (h | ⟨m, hm, h⟩)
        · exact absurd h (by decide)
        · exact (hfixed trivial m hm).1 h
      · rintro ⟨m, hm, h⟩
        exact (hfixed trivial m hm).2 h

/-- **When the fields of a structure are distinct.** A class has the attributes of its members, after the code and the
fault if it is an error, and reads one keyword argument for each member. The keyword arguments are distinct exactly if
no two members have the same words; the attributes, if moreover no member of an error is its code or its fault. Members
that differ in their letters and digits are safe. -/
theorem structureClass_distinct {cx : Context} {shape : Shape} {members : List Member} {t : Table}
    (hnames : cx.provider.memberName = Naming.memberName)
    (hok : (structureClass cx shape members t).result = .ok ()) :
    ∃ e, (structureClass cx shape members t).out = [e] ∧
      e.attributes = (if shape.isError then ["code", "fault"] else []) ++
        (fieldOrder members).map (fun m => Naming.memberName m.name) ∧
      e.keys = members.map (fun m => Naming.memberName m.name) ∧
      (e.keys.Nodup ↔ (members.map fun m => words m.name).Nodup) ∧
      (e.attributes.Nodup ↔ (members.map fun m => words m.name).Nodup ∧
        (shape.isError = true → ∀ m ∈ members, words m.name ≠ ["code"] ∧ words m.name ≠ ["fault"])) ∧
      ((members.map fun m => letters m.name).Nodup →
        (shape.isError = true → ∀ m ∈ members, letters m.name ≠ "code" ∧ letters m.name ≠ "fault") →
        e.attributes.Nodup ∧ e.keys.Nodup) := by
  have hsingle : Lists (fun _ => [()]) (structureClass cx shape members) [()] :=
    (lists_symbol cx _).after fun _ => (lists_ofExcept _).after fun _ => edit_single _ _
  obtain ⟨e, he⟩ := hsingle.exists_eq hok
  have hmember : cx.memberName = fun m => Naming.memberName m.name := funext fun m => congrFun hnames m.name
  have hattributes := structureClass_attributes cx shape members t () hok
  have hkeys := structureClass_keys cx shape members t () hok
  rw [he, List.flatMap_singleton, hmember] at hattributes hkeys
  have hdistinct : e.keys.Nodup ↔ (members.map fun m => words m.name).Nodup := by
    rw [hkeys]
    exact nodup_map_iff fun _ _ => Naming.memberName_eq_iff
  refine ⟨e, he, hattributes, hkeys, hdistinct, hattributes ▸ nodup_fields shape.isError members, ?_⟩
  intro hletters herror
  have hwords := nodup_words hletters
  refine ⟨?_, hdistinct.2 hwords⟩
  rw [hattributes, nodup_fields]
  refine ⟨hwords, fun hError m hm => ⟨fun hcode => ?_, fun hfault => ?_⟩⟩
  · exact (herror hError m hm).1 (by rw [← join_words, hcode]; rfl)
  · exact (herror hError m hm).2 (by rw [← join_words, hfault]; rfl)

/-- An id of the model `queue`. -/
def queueId (name : String) : ShapeId := { ns := "ex", name }

def busyMembers : List Member :=
  ["code", "retryAfter", "retry_after"].map fun name =>
    { id := (queueId "Busy").withMember name, target := .prelude "String" }

def busy : Shape where
  id := queueId "Busy"
  kind := .struct busyMembers
  traits := ⟨[(TraitId.error, .str "client")]⟩

def rankValues : List EnumValue := [{ name := "<", value := "<" }, { name := ">", value := ">" }]

def rank : Shape where
  id := queueId "Rank"
  kind := .enumeration rankValues

/-- An error and an enumeration whose names meet. -/
def queue : Model where
  shapes := [busy, rank]
  distinct := by decide

def queueContext : Context where
  model := queue
  settings := { service := queueId "Busy", module := "p", outputDir := ⟨"out"⟩ }
  provider := { package := "p" }
  order := ⟨[queueId "Busy", queueId "Rank"], []⟩
  service := { id := queueId "Busy", kind := .struct [] }

/-- Two members share an attribute, and one is the code of the error. -/
theorem busy_fields_meet : (structureClass queueContext busy busyMembers {}).result = .ok () ∧
    ∃ e, (structureClass queueContext busy busyMembers {}).out = [e] ∧
      e.attributes = ["code", "fault", "code", "retry_after", "retry_after"] ∧
      e.keys = ["code", "retry_after", "retry_after"] ∧ ¬ e.attributes.Nodup ∧ ¬ e.keys.Nodup := by
  obtain ⟨⟨⟩, hok⟩ : ∃ a, (structureClass queueContext busy busyMembers {}).result = .ok a :=
    exists_ok_of_isSome (by decide +kernel)
  have hnames : queueContext.provider.memberName = Naming.memberName := by simp only [queueContext]
  obtain ⟨e, he, hattributes, hkeys, hkeysIff, hattributesIff, -⟩ := structureClass_distinct hnames hok
  have hwords : ¬ (busyMembers.map fun m => words m.name).Nodup := by decide +kernel
  refine ⟨hok, e, he, hattributes.trans (by decide +kernel), hkeys.trans (by decide +kernel), ?_, ?_⟩
  · exact fun h => hwords (hattributesIff.1 h).1
  · exact fun h => hwords (hkeysIff.1 h)

end Distinct

/-! ### Enumerations -/

section Enumerations

open Text

variable (cx : Context) (shape : Shape) (values : List EnumValue)

theorem enumClass_constants : Lists Edit.constants (enumClass cx shape values)
    (values.map fun v => (constantName v.name, v.value)) := by
  have hlook := Step.plain_constants
  have hpass : Lists Step.constants (onlyIf values.isEmpty (line "pass" [])) [] :=
    (lists_emit _).onlyIf.congr (ite_self _)
  have hconstant : ∀ v, Lists Step.constants (enumConstant v) [(constantName v.name, v.value)] := fun v =>
    (lists_emit _).seq fun _ => trailingDocs_lists hlook _
  have hbody := (leadingDocs_lists hlook shape.traits.documentation).after fun _ => hpass.after fun _ =>
    lists_forM fun v (_ : v ∈ values) => hconstant v
  have hseparate : Lists (Step.inClasses Step.constants) separate [] := (lists_emit _).after fun _ => lists_emit _
  refine (lists_symbol cx _).after fun symbol => Lists.edit ?_ symbol
  refine ((Lists.scope hbody.define).seq fun _ => hseparate).congr ?_
  rw [List.append_nil, List.map_eq_flatMap]

theorem constantFor_eq_ok_iff {id : ShapeId} {text constant : String} : constantFor id values text = .ok constant ↔
    ∃ v, values.find? (fun v => v.value == text) = some v ∧ constantName v.name = constant := by
  unfold constantFor
  cases values.find? fun v => v.value == text <;> simp

theorem defaultExpression_enumeration {here text expression : String} {t : Table}
    (hshape : cx.shape shape.id = .ok shape) (hkind : shape.kind = .enumeration values)
    (h : (defaultExpression cx here shape.id (.str text) t).result = .ok expression) :
    ∃ s v, (cx.symbol shape.id t : Planned Step Symbol).result = .ok s ∧
      values.find? (fun v => v.value == text) = some v ∧ expression = s.textIn here ++ "." ++ constantName v.name := by
  unfold defaultExpression at h
  obtain ⟨shape', hshape', h⟩ := bind_ok h
  obtain rfl : shape = shape' := Except.ok.inj (hshape.symm.trans hshape')
  rw [hkind] at h
  obtain ⟨s, hs, h⟩ := bind_ok h
  obtain ⟨type, htype, h⟩ := bind_ok h
  obtain ⟨constant, hconstant, h⟩ := bind_ok h
  obtain ⟨v, hv, rfl⟩ := (constantFor_eq_ok_iff values).1 hconstant
  refine ⟨s, v, hs, hv, ?_⟩
  cases htype
  exact (Except.ok.inj h).symm

end Enumerations

/-- **When the constants of an enumeration are distinct.** The class has one constant for each value, with its text.
They are distinct exactly if no two values have names with the same words; names that differ in their letters and
digits are safe. A default names the constant of the first value with its text. The constant has the text, and has no
other exactly if the values with the same words have that text too. -/
theorem enumClass_distinct {cx : Context} {shape : Shape} {values : List EnumValue} {t : Table}
    (hok : (enumClass cx shape values t).result = .ok ()) :
    ∃ e, (enumClass cx shape values t).out = [e] ∧
      e.constants = values.map (fun v => (constantName v.name, v.value)) ∧
      ((e.constants.map Prod.fst).Nodup ↔ (values.map fun v => Text.words v.name).Nodup) ∧
      ((values.map fun v => Text.letters v.name).Nodup → (e.constants.map Prod.fst).Nodup) ∧
      ∀ here text expression t', cx.shape shape.id = .ok shape → shape.kind = .enumeration values →
        (defaultExpression cx here shape.id (.str text) t').result = .ok expression →
        ∃ s v, (cx.symbol shape.id t' : Planned Step Symbol).result = .ok s ∧
          values.find? (fun v => v.value == text) = some v ∧
          expression = s.textIn here ++ "." ++ constantName v.name ∧
          (constantName v.name, text) ∈ e.constants ∧
          ((∀ other, (constantName v.name, other) ∈ e.constants → other = text) ↔
            ∀ w ∈ values, Text.words w.name = Text.words v.name → w.value = text) := by
  have hsingle : Lists (fun _ => [()]) (enumClass cx shape values) [()] :=
    (lists_symbol cx _).after fun _ => edit_single _ _
  obtain ⟨e, he⟩ := hsingle.exists_eq hok
  have hconstants := enumClass_constants cx shape values t () hok
  rw [he, List.flatMap_singleton] at hconstants
  have hdistinct : (e.constants.map Prod.fst).Nodup ↔ (values.map fun v => Text.words v.name).Nodup := by
    have hnames : e.constants.map Prod.fst = values.map fun v => constantName v.name := by
      rw [hconstants, List.map_map, Function.comp_def]
    have htell : ∀ v w : EnumValue, constantName v.name = constantName w.name ↔ Text.words v.name = Text.words w.name :=
      fun _ _ => constantName_eq_iff
    rw [hnames, nodup_map_iff htell]
  refine ⟨e, he, hconstants, hdistinct, fun hletters => hdistinct.2 (nodup_words hletters), ?_⟩
  intro here text expression t' hshape hkind hdefault
  obtain ⟨s, v, hs, hv, hexpression⟩ := defaultExpression_enumeration cx shape values hshape hkind hdefault
  have htext := List.find?_some hv
  have hmem : ∀ constant other, (constant, other) ∈ e.constants ↔
      ∃ w ∈ values, constantName w.name = constant ∧ w.value = other := by
    intro constant other
    rw [hconstants, List.mem_map]
    simp only [Prod.mk.injEq]
  refine ⟨s, v, hs, hv, hexpression, (hmem _ _).2 ⟨v, List.mem_of_find?_eq_some hv, rfl, eq_of_beq htext⟩, ?_⟩
  simp only [hmem]
  constructor
  · intro h w hw hwords
    exact h w.value ⟨w, hw, constantName_eq_iff.2 hwords, rfl⟩
  · rintro h other ⟨w, hw, hconstant, rfl⟩
    exact h w hw (constantName_eq_iff.1 hconstant)

/-- The constant of the second value is that of the first. -/
theorem rank_constants_meet : (enumClass queueContext rank rankValues {}).result = .ok () ∧
    ∃ e, (enumClass queueContext rank rankValues {}).out = [e] ∧ e.constants = [("_", "<"), ("_", ">")] ∧
      ¬ (e.constants.map Prod.fst).Nodup ∧
      ∃ s : Symbol, (defaultExpression queueContext "p.models" rank.id (.str ">") {}).result =
        .ok (s.textIn "p.models" ++ "." ++ "_") ∧ ¬ ∀ other, ("_", other) ∈ e.constants → other = ">" := by
  obtain ⟨⟨⟩, hok⟩ : ∃ a, (enumClass queueContext rank rankValues {}).result = .ok a :=
    exists_ok_of_isSome (by decide +kernel)
  obtain ⟨expression, hdefault⟩ :
      ∃ a, (defaultExpression queueContext "p.models" rank.id (.str ">") {}).result = .ok a :=
    exists_ok_of_isSome (by decide +kernel)
  obtain ⟨e, he, hconstants, hdistinct, -, hdenotes⟩ := enumClass_distinct hok
  have hwords : ¬ (rankValues.map fun v => Text.words v.name).Nodup := by decide +kernel
  obtain ⟨s, v, -, hv, rfl, -, hiff⟩ := hdenotes "p.models" ">" expression {} rfl rfl hdefault
  obtain rfl : { name := ">", value := ">" } = v := Option.some.inj hv
  have hname : constantName ">" = "_" := by decide +kernel
  rw [hname] at hiff hdefault
  refine ⟨hok, e, he, hconstants.trans (by decide +kernel), fun h => hwords (hdistinct.1 h), s, hdefault, fun h => ?_⟩
  exact absurd (hiff.1 h { name := "<", value := "<" } (by decide) (by decide +kernel)) (by decide)

end Package
end ClientGen
