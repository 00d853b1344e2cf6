import ClientGen.Package.Generation
import ClientGen.Proofs.PlanOutline
import ClientGen.Proofs.SectionReach

/-!
# The indexes of members

A member is read by its index in the schema of its shape, so the schema and the code that dispatches by the index
have to count the members in the same way. Both are written by different parts of the generation and to different
modules.

* `member_indexes_agree`: all of them have the members in the order of the shape.
-/

namespace ClientGen.Package

open Context Sheet

/-! ### Values -/

/-- What is written with a helper of the target, if it has one, and what else. -/
noncomputable def byHelper (cx : Context) (target : ShapeId) (role : String) (call : Symbol → String)
    (plain : String) : String :=
  match (cx.sym target).property? role with
  | some helper => call helper
  | none => plain

/-- The expression that reads a value of the target. Operations and services have no values. -/
noncomputable def readExpression (cx : Context) (ns : String) (target : ShapeId) (deserializer schema : String) :
    String :=
  let collection := byHelper cx target Symbol.deserializerRole fun helper =>
    helper.textIn ns ++ "(" ++ deserializer ++ ", " ++ schema ++ ")"
  match (cx.model.get? target).map Shape.kind with
  | some (.scalar type) => deserializer ++ ".read_" ++ type.methodSuffix ++ "(" ++ schema ++ ")"
  | some (.enumeration _) => (cx.sym target).textIn ns ++ "(" ++ deserializer ++ ".read_string(" ++ schema ++ "))"
  | some (.struct _) => (cx.sym target).textIn ns ++ ".deserialize(" ++ deserializer ++ ")"
  | some (.union _) => (cx.helper target Symbol.deserializerRole).textIn ns ++ "().deserialize(" ++ deserializer ++ ")"
  | some (.list _) | some (.set _) => collection (deserializer ++ ".read_list(" ++ schema ++ ")")
  | some (.map _ _) => collection (deserializer ++ ".read_map(" ++ schema ++ ")")
  | some (.operation _) | some (.service _) | none => ""

/-- The statement that writes a value of the target. -/
noncomputable def writeStatement (cx : Context) (ns : String) (target : ShapeId) (serializer schema value : String) :
    String :=
  let collection := byHelper cx target Symbol.serializerRole fun helper =>
    helper.textIn ns ++ "(" ++ serializer ++ ", " ++ schema ++ ", " ++ value ++ ")"
  match (cx.model.get? target).map Shape.kind with
  | some (.scalar type) => serializer ++ ".write_" ++ type.methodSuffix ++ "(" ++ schema ++ ", " ++ value ++ ")"
  | some (.enumeration _) => serializer ++ ".write_string(" ++ schema ++ ", " ++ value ++ ")"
  | some (.struct _) | some (.union _) => serializer ++ ".write_struct(" ++ schema ++ ", " ++ value ++ ")"
  | some (.list _) | some (.set _) => collection (serializer ++ ".write_list(" ++ schema ++ ", " ++ value ++ ")")
  | some (.map _ _) => collection (serializer ++ ".write_map(" ++ schema ++ ", " ++ value ++ ")")
  | some (.operation _) | some (.service _) | none => ""

variable {p : Sheet}

theorem byHelper_of {cx : Context} {W : Plan Step Unit → String → Prop}
    (hlookup : ∀ {id f s}, W (f (cx.sym id)) s → W (cx.symbol id >>= f) s) {target : ShapeId} {role plain : String}
    {call : Symbol → String} {withHelper : Symbol → Plan Step Unit} {without : Plan Step Unit}
    (hwith : ∀ helper, W (withHelper helper) (call helper)) (hwithout : W without plain) :
    W (cx.symbol target >>= fun s => match s.property? role with
      | some helper => withHelper helper
      | none => without) (byHelper cx target role call plain) := by
  refine hlookup ?_
  unfold byHelper
  cases (cx.sym target).property? role with
  | some helper => exact hwith helper
  | none => exact hwithout

theorem readValue_expresses (target : ShapeId) (deserializer schema : String) :
    p.Expresses (readValue p.cx target deserializer schema)
      (readExpression p.cx p.ns target deserializer schema) := by
  refine Ensures.shape fun shape hshape => ?_
  obtain ⟨id, kind, traits⟩ := shape
  have hcall : ∀ helper : Symbol, p.Expresses (Plan.inline "$T($L, $L)" [helper, deserializer, schema])
      (helper.textIn p.ns ++ "(" ++ deserializer ++ ", " ++ schema ++ ")") := by
    intro helper
    exact expresses_inline (by with_unfolding_all rfl)
  have hhelper := @byHelper_of p.cx p.Expresses Ensures.lookup
  unfold readExpression
  rw [hshape]
  cases kind with
  | scalar type => exact expresses_inline (by with_unfolding_all rfl)
  | enumeration values | struct members => exact Ensures.lookup (expresses_inline (by with_unfolding_all rfl))
  | union members => exact Ensures.lookup (Ensures.property (expresses_inline (by with_unfolding_all rfl)))
  | list e | set e | map k v => exact hhelper hcall (expresses_inline (by with_unfolding_all rfl))
  | operation o | service v => exact ensures_fail _

theorem writeValue_line (target : ShapeId) (serializer schema value : String) :
    p.Writes (writeValue p.cx target serializer schema value)
      [.line (writeStatement p.cx p.ns target serializer schema value)] := by
  refine Ensures.shape fun shape hshape => ?_
  obtain ⟨id, kind, traits⟩ := shape
  have hcall : ∀ helper : Symbol, p.Writes (Plan.line "$T($L, $L, $L)" [helper, serializer, schema, value])
      [.line (helper.textIn p.ns ++ "(" ++ serializer ++ ", " ++ schema ++ ", " ++ value ++ ")")] := by
    intro helper
    exact writes_line (by with_unfolding_all rfl)
  have hhelper := @byHelper_of p.cx (fun x s => p.Writes x [.line s]) Ensures.lookup
  unfold writeStatement
  rw [hshape]
  cases kind with
  | scalar type | enumeration values | struct members | union members => exact writes_line (by with_unfolding_all rfl)
  | list e | set e | map k v => exact hhelper hcall (writes_line (by with_unfolding_all rfl))
  | operation o | service v => exact ensures_fail _

/-! ### Schemas -/

/-- Of a schemas module the dictionaries are kept, without the lines in them. -/
def dictionaries (head : String) : Detail := if head.toList.getLast? = some '\x7b' then .heading else .inside

theorem dictionaries_append {tail : String} (c : Char) (htail : tail.toList.getLast? = some c) (front : String) :
    dictionaries (front ++ tail) = if c = '\x7b' then .heading else .inside := by
  unfold dictionaries
  rw [String.toList_append, List.getLast?_append, htail]
  simp

/-- The dictionary of members that the schema of a shape, or the lines that complete its shell, hold. -/
noncomputable def memberDictionary (cx : Context) (shape : Shape) (members : List Member) : Outline :=
  .block (if cx.order.isRecursive shape.id then (cx.helper shape.id Symbol.schemaRole).name ++ ".update_members(\x7b"
    else "members=\x7b") (members.map fun m => .block (Text.quote m.name ++ ": \x7b") [])

section Schemas

theorem traitEntry_keeps (id : ShapeId) (value : Json) : p.Keeps dictionaries (traitEntry id value) [] := by
  unfold traitEntry
  split
  · exact keeps_line (by with_unfolding_all rfl)
  · exact keeps_line (by with_unfolding_all rfl)

theorem traitList_keeps {opening : String} (hopening : Template.text? p.ns opening [] = some opening)
    (hdetail : dictionaries opening = .inside) (traits : Traits) :
    p.Keeps dictionaries (traitList opening traits) [] := by
  unfold traitList
  split
  · exact shows_pure ()
  · have hentries : p.Keeps dictionaries ((keptTraits traits).forM fun e => traitEntry e.1 e.2)
        ((keptTraits traits).flatMap fun _ => []) :=
      shows_forM fun e _ => traitEntry_keeps e.1 e.2
    refine Shows.congr ((hentries.inside (fun _ _ hout => hout.block hopening) hdetail).seq fun _ => keeps_line (by with_unfolding_all rfl)) ?_
    simp

theorem memberEntry_keeps (m : Member) :
    p.Keeps dictionaries (memberEntry p.cx m) [.block (Text.quote m.name ++ ": \x7b") []] := by
  have htraits : p.Keeps dictionaries (traitList "\"traits\": [" m.traits) [] :=
    traitList_keeps (by with_unfolding_all rfl) (by decide) m.traits
  have hline : ∀ schema : Symbol, p.Keeps dictionaries (Plan.line "\"target\": $T," [schema]) [] :=
    fun schema => keeps_line (by with_unfolding_all rfl)
  have hhead : Template.text? p.ns "$S: \x7b" [m.name] = some (Text.quote m.name ++ ": \x7b") := by
    with_unfolding_all rfl
  refine Ensures.lookup (Ensures.property ?_)
  exact (Keeps.heading ((hline _).seq fun _ => htraits) (fun _ _ hout => hout.block hhead)
    (dictionaries_append '\x7b' (by decide) _)).seq fun _ => keeps_line (by with_unfolding_all rfl)

theorem memberEntries_keeps {kind : Kind} {members : List Member}
    (hkind : kind = .struct members ∨ kind = .union members) :
    p.Keeps dictionaries (memberEntries p.cx kind) (members.map fun m => .block (Text.quote m.name ++ ": \x7b") []) := by
  have hentries : p.Keeps dictionaries (members.forM (memberEntry p.cx))
      (members.map fun m => .block (Text.quote m.name ++ ": \x7b") []) :=
    (shows_forM fun m _ => memberEntry_keeps m).congr List.map_eq_flatMap.symm
  rcases hkind with rfl | rfl
  · exact hentries
  · exact hentries

theorem shapeTypeEntry_keeps (kind : Kind) : p.Keeps dictionaries (shapeTypeEntry kind) [] := by
  unfold shapeTypeEntry
  split
  · exact shows_pure ()
  · exact keeps_line (by with_unfolding_all rfl)

theorem schemaConstant_keeps (shape : Shape) {withMembers : Bool} {entries : List Outline}
    (hentries : withMembers = true → p.Keeps dictionaries (memberEntries p.cx shape.kind) entries) :
    p.Keeps dictionaries (schemaConstant p.cx shape withMembers)
      (if withMembers then [.block "members=\x7b" entries] else []) := by
  have hmembers : p.Keeps dictionaries (Plan.onlyIf withMembers (membersEntry p.cx shape.kind))
      (if withMembers then [.block "members=\x7b" entries] else []) := by
    cases withMembers with
    | false => exact shows_pure ()
    | true =>
      have hhead : Template.text? p.ns "members=\x7b" [] = some "members=\x7b" := by with_unfolding_all rfl
      exact ((hentries rfl).heading (fun _ _ hout => hout.block hhead) (by decide)).seq fun _ => keeps_line (by with_unfolding_all rfl)
  have htraits : p.Keeps dictionaries (traitList "traits=[" shape.traits) [] :=
    traitList_keeps (by with_unfolding_all rfl) (by decide) shape.traits
  have hhead : ∀ (name : String) (c : Bool), Template.text? p.ns (Declarator.value.lead ++ "$L" ++ " = $L(")
      [name, if c then "Schema.collection" else "Schema"] =
        some (name ++ " = " ++ (if c then "Schema.collection" else "Schema") ++ "(") := by
    intro name c
    cases c with
    | true | false => with_unfolding_all rfl
  refine Ensures.lookup (Ensures.property ?_)
  refine Shows.congr ((keeps_importSymbol _).seq fun _ => (Keeps.inside
    ((keeps_line ?_).seq fun _ => (shapeTypeEntry_keeps _).seq fun _ => htraits.seq fun _ => hmembers)
    (fun _ _ hout => hout.define (hhead _ _)) (dictionaries_append '(' (by decide) _)).seq fun _ => keeps_line ?_)
    (by simp)
  all_goals with_unfolding_all rfl

variable (cx : Context) {registry : Registry} {shape : Shape} {members : List Member}

/-- **The schemas module gets one dictionary of members**, in the definition of the schema or where its shell is
completed. -/
theorem schema_edits (hkind : shape.kind = .struct members ∨ shape.kind = .union members)
    (hplace : registry.forSection (.schema shape.id) = []) :
    cx.Ensures (schema cx shape) fun out _ _ => ∃ e, out = [e] ∧ e.At (cx.helper shape.id Symbol.schemaRole) ∧
      e.Keeps registry dictionaries [memberDictionary cx shape members] := by
  have hlists : listsMembers shape.kind = true := by
    rcases hkind with h | h <;> rw [h] <;> rfl
  refine Ensures.lookup (Ensures.property (Keeps.edit ?_))
  have hentries := memberEntries_keeps (p := ⟨cx, registry, (cx.helper shape.id Symbol.schemaRole).ns⟩) hkind
  have hmembers : Sheet.Keeps ⟨cx, registry, (cx.helper shape.id Symbol.schemaRole).ns⟩ dictionaries
      (if cx.order.isRecursive shape.id then do
        Plan.block "$L.update_members(\x7b" [.name (cx.helper shape.id Symbol.schemaRole)] (memberEntries cx shape.kind)
        Plan.line "\x7d)" []
      else schemaConstant cx shape (listsMembers shape.kind)) [memberDictionary cx shape members] := by
    unfold memberDictionary
    split
    · have hhead : ∀ ns (s : Symbol), Template.text? ns "$L.update_members(\x7b" [.name s] =
          some (s.name ++ ".update_members(\x7b") := by
        intro ns s
        with_unfolding_all rfl
      exact (Keeps.heading hentries (fun _ _ hout => hout.block (hhead _ _))
        (dictionaries_append '\x7b' (by decide) _)).seq fun _ => keeps_line (by with_unfolding_all rfl)
    · refine (schemaConstant_keeps shape fun _ => hentries).congr ?_
      rw [hlists]
      rfl
  exact (hmembers.scope hplace).seq fun _ => keeps_separate

theorem schemaShell_edits (id : ShapeId) :
    cx.Ensures (schemaShell cx id) fun out _ _ => ∃ e, out = [e] ∧ e.At (cx.helper id Symbol.schemaRole) ∧
      e.Keeps registry dictionaries [] := by
  refine Ensures.shape fun shape _ => Ensures.lookup (Ensures.property (Keeps.edit ?_))
  have hshell : Sheet.Keeps ⟨cx, registry, (cx.helper id Symbol.schemaRole).ns⟩ dictionaries
      (schemaConstant cx shape false) [] := by
    have hentries : false = true → Sheet.Keeps ⟨cx, registry, (cx.helper id Symbol.schemaRole).ns⟩ dictionaries
        (memberEntries cx shape.kind) [] := fun h => absurd h Bool.false_ne_true
    exact schemaConstant_keeps shape hentries
  exact hshell.seq fun _ => keeps_separate

end Schemas

/-! ### Fields -/

/-- The schema of a member. -/
def memberSchemaText (ns : String) (schema : Symbol) (m : Member) : String :=
  schema.textIn ns ++ ".members[" ++ Text.quote m.name ++ "]"

section Fields

variable {detail : String → Detail}

theorem memberSchema_computes (schema : Symbol) (m : Member) :
    p.Computes (memberSchema p.ns schema m.name) (memberSchemaText p.ns schema m) :=
  (computes_reference p.ns schema).pure _ rfl

theorem typeHint_keeps (here : String) (target : ShapeId) (optional : Bool) :
    p.Keeps detail (typeHint p.cx here target optional) [] :=
  Ensures.lookup ((computes_reference here _).shows.seq fun _ => shows_pure _)

theorem factoryDefault_keeps (here factory : String) : p.Keeps detail (factoryDefault here factory) [] :=
  (computes_reference here _).shows.seq fun _ => shows_pure _

theorem timestampDefault_keeps (here : String) (v : Json) : p.Keeps detail (timestampDefault p.cx here v) [] := by
  have hreference : ∀ s : Symbol, p.Keeps detail (Plan.reference here s) [] := fun s => (computes_reference here s).shows
  unfold timestampDefault
  split
  · exact hreference _
  · split
    · exact (hreference _).seq fun _ => (hreference _).seq fun _ => shows_pure _
    · exact (hreference _).seq fun _ => (hreference _).seq fun _ => shows_pure _
    · exact (hreference _).seq fun _ => shows_pure _
    · exact ensures_fail _

theorem defaultExpression_keeps (here : String) (target : ShapeId) (v : Json) :
    p.Keeps detail (defaultExpression p.cx here target v) [] := by
  have hreference : ∀ s : Symbol, p.Keeps detail (Plan.reference here s) [] := fun s => (computes_reference here s).shows
  refine Ensures.shape fun shape _ => ?_
  split
  · exact factoryDefault_keeps here _
  · exact factoryDefault_keeps here _
  · exact factoryDefault_keeps here _
  · exact Ensures.lookup ((hreference _).seq fun _ => Ensures.except fun _ _ => shows_pure _)
  · exact timestampDefault_keeps here _
  · split
    · exact shows_pure _
    · exact (hreference _).seq fun _ => shows_pure _
  · exact (hreference _).seq fun _ => shows_pure _
  · exact (hreference _).seq fun _ => (hreference _).seq fun _ => shows_pure _
  · exact shows_pure _

theorem memberDefault_keeps (here : String) (m : Member) : p.Keeps detail (memberDefault p.cx here m) [] := by
  unfold memberDefault
  split
  · exact shows_pure _
  · exact (defaultExpression_keeps here _ _).seq fun _ => shows_pure _

theorem fieldLine_keeps (name hint : String) (default : Option String) : p.Keeps detail (fieldLine name hint default) [] := by
  unfold fieldLine
  split
  · exact keeps_defineLine (by with_unfolding_all rfl)
  · exact keeps_defineLine (by with_unfolding_all rfl)

theorem memberField_keeps (here : String) (m : Member) : p.Keeps detail (memberField p.cx here m) [] :=
  (typeHint_keeps here _ _).seq fun _ => (memberDefault_keeps here m).seq fun _ => (fieldLine_keeps _ _ _).seq fun _ =>
    (keeps_trailingDocs _).seq fun _ => keeps_newline

theorem errorFields_keeps (s : Shape) : p.Keeps detail (errorFields s) [] :=
  Ensures.except fun _ _ => (keeps_defineLine (by with_unfolding_all rfl)).seq fun _ =>
    (keeps_defineLine (by with_unfolding_all rfl)).seq fun _ => keeps_newline

end Fields

/-! ### Dispatch -/

/-- The cases by the index of a member: one for each member, counted from zero in the order of the members, and one
for any other index. -/
def memberCases (members : List Member) (read : Member → Outline) : List Outline :=
  (members.zipIdx.flatMap fun (m, index) => [.block ("case " ++ toString index ++ ":") [read m], .line ""]) ++
    [.block "case _:" [.line ("logger.debug(" ++ Text.quote "Unexpected member schema: %s" ++ ", schema)")]]

theorem dispatch_keeps {members : List Member} {one : Nat → Member → Plan Step Unit} {read : Member → Outline}
    (hone : ∀ index m, p.Writes (one index m) [.block ("case " ++ toString index ++ ":") [read m], .line ""])
    {detail : String → Detail} (hdetail : detail "match schema.expect_member_index():" = .whole) :
    p.Keeps detail (Plan.block "match schema.expect_member_index():" [] do
      members.zipIdx.forM fun (m, index) => one index m
      unexpectedMember) [.block "match schema.expect_member_index():" (memberCases members read)] := by
  have hloop : p.Writes (members.zipIdx.forM fun (m, index) => one index m)
      (members.zipIdx.flatMap fun (m, index) => [.block ("case " ++ toString index ++ ":") [read m], .line ""]) :=
    shows_forM fun b _ => hone b.2 b.1
  have hcases : p.Writes (do
      members.zipIdx.forM fun (m, index) => one index m
      unexpectedMember) (memberCases members read) :=
    hloop.seq fun _ => (writes_line (by with_unfolding_all rfl)).block (by with_unfolding_all rfl)
  exact hcases.whole hdetail (by with_unfolding_all rfl)

/-! ### Structures -/

/-- Of a structure's class two blocks are kept: the one that writes its members, and the dispatch. -/
def methods : String → Detail := .ofWords [] ["def serialize_members(", "match "]

/-- Writes a member; one that may be absent only if it is there. -/
noncomputable def memberWriting (cx : Context) (ns : String) (schema : Symbol) (m : Member) : Outline :=
  let name := cx.memberName m
  let statement := writeStatement cx ns m.target "serializer" (memberSchemaText ns schema m) ("self." ++ name)
  if isOptional m then .block ("if self." ++ name ++ " is not None:") [.line statement] else .line statement

/-- Reads a member into the keyword arguments. -/
noncomputable def memberReading (cx : Context) (ns : String) (schema : Symbol) (m : Member) : Outline :=
  .code ("kwargs[" ++ Text.quote (cx.memberName m) ++ "] = ")
    (readExpression cx ns m.target "de" (memberSchemaText ns schema m)) ""

/-- What writes and reads the members of a structure. -/
noncomputable def structureMethods (cx : Context) (ns : String) (schema : Symbol) (members : List Member) : List Outline :=
  [.block ("def serialize_members(self, serializer: " ++ Library.shapeSerializer.textIn ns ++ "):")
      (if members.isEmpty then [.line "pass"] else members.map (memberWriting cx ns schema)),
    .block "match schema.expect_member_index():" (memberCases members (memberReading cx ns schema))]

section Structures

variable (schema : Symbol)

theorem writeMember_writing (m : Member) :
    p.Writes (writeMember p.cx p.ns schema m) [memberWriting p.cx p.ns schema m] := by
  refine Shows.given (memberSchema_computes schema m) ?_
  have hwrite := writeValue_line (p := p) m.target "serializer" (memberSchemaText p.ns schema m)
    ("self." ++ p.cx.memberName m)
  unfold memberWriting
  dsimp only
  split
  · exact hwrite.block (by with_unfolding_all rfl)
  · exact hwrite

theorem readMember_reading (index : Nat) (m : Member) :
    p.Writes (readMember p.cx p.ns schema index m)
      [.block ("case " ++ toString index ++ ":") [memberReading p.cx p.ns schema m], .line ""] := by
  have hparse : Template.parse "kwargs[$S] = $C" =
      .ok [.text "kwargs[", .argument .next .string, .text "] = ", .argument .next .code] := by
    with_unfolding_all rfl
  have hpieces : ∀ piece arg, Arg.piece? p.ns .code arg = some piece →
      Template.pieces? p.ns "kwargs[$S] = $C" ([Arg.literal (p.cx.memberName m)] ++ [arg]) =
        some [.text "kwargs[", .text (Text.quote (p.cx.memberName m)), .text "] = ", piece] := by
    intro piece arg harg
    have hname : Arg.piece? p.ns .string (.literal (p.cx.memberName m)) =
      some (.text (Text.quote (p.cx.memberName m))) := rfl
    unfold Template.pieces?
    rw [hparse]
    simp [Template.fill, harg, hname]
  have hread : p.Writes (Plan.lineWith "kwargs[$S] = $C" [p.cx.memberName m]
      (readValue p.cx m.target "de" (memberSchemaText p.ns schema m))) [memberReading p.cx p.ns schema m] := by
    refine (readValue_expresses _ _ _).line hpieces fun d => ?_
    rw [Draft.put_append, Draft.put_append]
    rfl
  refine Shows.given (memberSchema_computes schema m) ?_
  exact (hread.block (by with_unfolding_all rfl)).seq fun _ => writes_newline

theorem writeMembers_writing (members : List Member) :
    p.Writes (if members.isEmpty then Plan.line "pass" [] else members.forM (writeMember p.cx p.ns schema))
      (if members.isEmpty then [.line "pass"] else members.map (memberWriting p.cx p.ns schema)) := by
  split
  · exact writes_line (by with_unfolding_all rfl)
  · exact (shows_forM fun m _ => writeMember_writing schema m).congr List.map_eq_flatMap.symm

theorem memberDispatch_keeps (members : List Member) :
    p.Keeps methods (memberDispatch p.cx p.ns schema members)
      [.block "match schema.expect_member_index():" (memberCases members (memberReading p.cx p.ns schema))] :=
  dispatch_keeps (readMember_reading schema) (by decide)

theorem structureBody_keeps (shape : Shape) (members : List Member) :
    p.Keeps methods (structureBody p.cx p.ns shape members schema) (structureMethods p.cx p.ns schema members) := by
  have hfields : p.Keeps methods ((fieldOrder members).forM (memberField p.cx p.ns)) [] :=
    (shows_forM fun m _ => memberField_keeps p.ns m).congr (by simp)
  have hwrite : p.Keeps methods (Plan.block "def serialize_members(self, serializer: $T):" [Library.shapeSerializer]
      (if members.isEmpty then Plan.line "pass" [] else members.forM (writeMember p.cx p.ns schema)))
      [.block ("def serialize_members(self, serializer: " ++ Library.shapeSerializer.textIn p.ns ++ "):")
        (if members.isEmpty then [.line "pass"] else members.map (memberWriting p.cx p.ns schema))] := by
    refine (writeMembers_writing schema members).whole ?_ (by with_unfolding_all rfl)
    rw [String.append_assoc]
    exact Detail.ofWords_whole _ (by decide)
  refine Shows.congr ((keeps_leadingDocs _).seq fun _ => (errorFields_keeps shape).onlyIf.seq fun _ =>
    hfields.seq fun _ => (Keeps.block ?_ (keeps_line ?_)).seq fun _ => keeps_newline.seq fun _ =>
    hwrite.seq fun _ => keeps_newline.seq fun _ =>
    (keeps_line ?_).seq fun _ => (Keeps.block ?_ (keeps_line ?_)).seq fun _ => keeps_newline.seq fun _ =>
    (keeps_line ?_).seq fun _ => Keeps.block ?_ <| (keeps_line ?_).seq fun _ => keeps_newline.seq fun _ =>
      (Keeps.block ?_ (memberDispatch_keeps schema members)).seq fun _ => keeps_newline.seq fun _ =>
      (keeps_line ?_).seq fun _ => keeps_line ?_) (by simp [structureMethods])
  all_goals with_unfolding_all rfl

end Structures

theorem structureClass_edits (cx : Context) {registry : Registry} {shape : Shape} (members : List Member)
    (hplace : registry.forSection (.struct shape.id) = []) :
    cx.Ensures (structureClass cx shape members) fun out _ _ => ∃ e, out = [e] ∧ e.At (cx.sym shape.id) ∧
      e.Keeps registry methods
        (structureMethods cx (cx.sym shape.id).ns (cx.helper shape.id Symbol.schemaRole) members) := by
  refine Ensures.lookup (Ensures.property (Keeps.edit ?_))
  have hbody := structureBody_keeps (p := ⟨cx, registry, (cx.sym shape.id).ns⟩) (cx.helper shape.id Symbol.schemaRole)
    shape members
  refine Shows.congr ((Shows.scope ((keeps_line (by with_unfolding_all rfl)).seq fun _ => ?_) hplace).seq fun _ => keeps_separate)
    (List.append_nil _)
  split
  · exact Keeps.define (by with_unfolding_all rfl) hbody
  · exact Keeps.define (by with_unfolding_all rfl) hbody

/-! ### Unions -/

/-- Of the classes of a union the first lines are kept, and the dispatch. -/
def unionParts : String → Detail := .ofWords ["class "] ["match "]

def classHead (name : String) : String := "class " ++ name ++ ":"

/-- Takes the value of the variant. -/
noncomputable def variantReading (cx : Context) (m : Member) : Outline :=
  .line ("self._set_result(" ++ (cx.sym m.id).name ++ ".deserialize(de))")

/-- The classes of a union: one for each member, one for members that are not known, and one that reads the union. -/
noncomputable def unionOutline (cx : Context) (id : ShapeId) (members : List Member) : List Outline :=
  (members.map fun m => .block (classHead (cx.sym m.id).name) []) ++
    [.block (classHead (cx.helper id Symbol.unknownRole).name) [],
      .block (classHead (cx.helper id Symbol.deserializerRole).name)
        [.block "match schema.expect_member_index():" (memberCases members (variantReading cx))]]

section Unions

theorem classDef_keeps {name : String} {body : Plan Step Unit} {kept : List Outline} (h : p.Keeps unionParts body kept) :
    p.Keeps unionParts (Plan.define .classDef name ":" [] body) [.block (classHead name) kept] := by
  have hhead : Template.text? p.ns (Declarator.classDef.lead ++ "$L" ++ ":") [name] = some (classHead name) := by
    with_unfolding_all rfl
  refine h.heading (fun _ _ hout => hout.define hhead) ?_
  unfold classHead
  rw [String.append_assoc]
  exact Detail.ofWords_heading _ (by decide)

theorem alternatives_accepted (template : String) (s : Symbol) (classes : List Symbol) :
    ∃ cs, (" | ".intercalate ((s :: classes).map fun _ => "$L")).toList = '$' :: cs ∧
      Template.Accepts template ('$' :: cs) (((s :: classes).map Arg.name).map Arg.fit) := by
  induction classes generalizing s with
  | nil =>
    refine ⟨['L'], ?_, Template.accepts_nil.literal⟩
    rw [List.map_singleton, String.intercalate_singleton]
    rfl
  | cons next classes ih =>
    obtain ⟨cs, hcs, haccepts⟩ := ih next
    have hbar : Template.Accepts template ([' ', '|', ' '] ++ '$' :: cs) (((next :: classes).map Arg.name).map Arg.fit) :=
      haccepts.text (by decide)
    refine ⟨'L' :: ' ' :: '|' :: ' ' :: '$' :: cs, ?_, hbar.literal⟩
    have hne : ((next :: classes).map fun _ => "$L") ≠ [] := List.cons_ne_nil _ _
    rw [List.map_cons, String.intercalate_cons_of_ne_nil hne, String.toList_append, hcs]
    rfl

theorem unionAlias_keeps (union s : Symbol) (classes : List Symbol) :
    p.Keeps unionParts (unionAlias union (s :: classes)) [] := by
  refine keeps_defineLine (Template.takes_of_accepts ?_)
  obtain ⟨cs, hcs, haccepts⟩ := alternatives_accepted
    (Declarator.typeAlias.lead ++ "$L" ++ (" = " ++ " | ".intercalate ((s :: classes).map fun _ => "$L"))) s classes
  have htext : (" = " ++ " | ".intercalate ((s :: classes).map fun _ => "$L")).toList = ' ' :: '=' :: ' ' :: '$' :: cs := by
    rw [String.toList_append, hcs]
    rfl
  rw [String.toList_append, String.toList_append, htext]
  have hequals : Template.Accepts _ ([' ', '=', ' '] ++ '$' :: cs) _ := haccepts.text (by decide)
  have htype : Template.Accepts _ (['t', 'y', 'p', 'e', ' '] ++ '$' :: 'L' :: ' ' :: '=' :: ' ' :: '$' :: cs) _ :=
    hequals.literal.text (by decide)
  exact htype

theorem raiseError_keeps (message : String) : p.Keeps unionParts (raiseError message) [] := keeps_line (by with_unfolding_all rfl)

theorem variantClass_keeps (m : Member) (variant schema : Symbol) :
    p.Keeps unionParts (variantClass p.cx p.ns m variant schema) [.block (classHead variant.name) []] := by
  have hparse : Template.parse "return cls(value=$C)" =
      .ok [.text "return cls(value=", .argument .next .code, .text ")"] := by
    with_unfolding_all rfl
  have hpieces : ∀ piece arg, Arg.piece? p.ns .code arg = some piece →
      Template.pieces? p.ns "return cls(value=$C)" ([] ++ [arg]) =
        some [.text "return cls(value=", piece, .text ")"] := by
    intro piece arg harg
    unfold Template.pieces?
    rw [hparse]
    simp [Template.fill, harg]
  have hread : p.Writes (Plan.lineWith "return cls(value=$C)" []
      (readValue p.cx m.target "deserializer" (memberSchemaText p.ns schema m)))
      [.code "return cls(value=" (readExpression p.cx p.ns m.target "deserializer" (memberSchemaText p.ns schema m)) ")"] := by
    refine (readValue_expresses _ _ _).line hpieces fun d => ?_
    simp only [List.foldl_cons, List.foldl_nil, Draft.putPiece]
  have hwrite : p.Keeps unionParts
      (writeValue p.cx m.target "serializer" (memberSchemaText p.ns schema m) "self.value") [] :=
    (writeValue_line _ _ _ _).view
  refine Shows.given (memberSchema_computes schema m) ?_
  refine Shows.congr ((typeHint_keeps p.ns _ _).seq fun _ => (keeps_line ?_).seq fun _ => classDef_keeps <|
    (keeps_leadingDocs _).seq fun _ => (keeps_defineLine ?_).seq fun _ => keeps_newline.seq fun _ =>
    (Keeps.block ?_ (keeps_line ?_)).seq fun _ => keeps_newline.seq fun _ =>
    (Keeps.block ?_ hwrite).seq fun _ => keeps_newline.seq fun _ =>
    (keeps_line ?_).seq fun _ => Keeps.block ?_ hread.view) (by simp [Outline.sketch])
  all_goals with_unfolding_all rfl

theorem variantClasses_keeps (schema : Symbol) (members : List Member)
    (hplaces : ∀ m ∈ members, p.registry.forSection (.unionMember m.id) = []) :
    p.Keeps unionParts (variantClasses p.cx p.ns schema members)
      (members.map fun m => .block (classHead (p.cx.sym m.id).name) []) := by
  induction members with
  | nil => exact shows_pure []
  | cons m rest ih =>
    have hrest := ih fun m' hm' => hplaces m' (List.mem_cons_of_mem _ hm')
    refine Ensures.lookup ?_
    refine Shows.congr (((variantClass_keeps m _ schema).scope (hplaces m List.mem_cons_self)).seq fun _ =>
      keeps_separate.seq fun _ => hrest.seq fun _ => shows_pure _) ?_
    simp

theorem unknownClass_keeps (unknown : Symbol) :
    p.Keeps unionParts (unknownClass unknown) [.block (classHead unknown.name) []] := by
  refine Shows.congr ((keeps_line ?_).seq fun _ => classDef_keeps <| (keeps_docs _).seq fun _ =>
    keeps_newline.seq fun _ => (keeps_defineLine ?_).seq fun _ => keeps_newline.seq fun _ =>
    (Keeps.block ?_ (raiseError_keeps _)).seq fun _ => keeps_newline.seq fun _ =>
    (Keeps.block ?_ (raiseError_keeps _)).seq fun _ => keeps_newline.seq fun _ =>
    (keeps_line ?_).seq fun _ => Keeps.block ?_ (keeps_line ?_)) (by simp)
  all_goals with_unfolding_all rfl

theorem readVariant_reading (index : Nat) (m : Member) :
    p.Writes (readVariant p.cx index m)
      [.block ("case " ++ toString index ++ ":") [variantReading p.cx m], .line ""] := by
  refine Ensures.lookup ?_
  exact (Writes.block (writes_line (by with_unfolding_all rfl)) (by with_unfolding_all rfl)).seq fun _ => writes_newline

theorem unionReader_keeps (members : List Member) (union reader schema : Symbol) :
    p.Keeps unionParts (unionReader p.cx members union reader schema)
      [.block (classHead reader.name)
        [.block "match schema.expect_member_index():" (memberCases members (variantReading p.cx))]] := by
  have hdispatch : p.Keeps unionParts (Plan.block "match schema.expect_member_index():" [] do
      members.zipIdx.forM fun (m, index) => readVariant p.cx index m
      unexpectedMember) _ := dispatch_keeps readVariant_reading (by decide)
  refine classDef_keeps (Shows.congr ((keeps_defineLine ?_).seq fun _ => keeps_newline.seq fun _ =>
    (Keeps.block ?_ <| (keeps_line ?_).seq fun _ => (keeps_line ?_).seq fun _ => keeps_newline.seq fun _ =>
      (Keeps.block ?_ (raiseError_keeps _)).seq fun _ => keeps_newline.seq fun _ => keeps_line ?_).seq fun _ =>
    keeps_newline.seq fun _ => (Keeps.block ?_ hdispatch).seq fun _ => keeps_newline.seq fun _ =>
    Keeps.block ?_ <| (Keeps.block ?_ (raiseError_keeps _)).seq fun _ => keeps_line ?_) (by simp))
  all_goals with_unfolding_all rfl

end Unions

theorem unionClasses_edits (cx : Context) {registry : Registry} {shape : Shape} (members : List Member)
    (hplace : registry.forSection (.union shape.id) = [])
    (hplaces : ∀ m ∈ members, registry.forSection (.unionMember m.id) = []) :
    cx.Ensures (unionClasses cx shape members) fun out _ _ => ∃ e, out = [e] ∧ e.At (cx.sym shape.id) ∧
      e.Keeps registry unionParts (unionOutline cx shape.id members) := by
  refine Ensures.lookup (Ensures.property (Ensures.property (Ensures.property (Keeps.edit ?_))))
  have hvariants := variantClasses_keeps (p := ⟨cx, registry, (cx.sym shape.id).ns⟩)
    (cx.helper shape.id Symbol.schemaRole) members hplaces
  have halias : ∀ variants, Sheet.Keeps ⟨cx, registry, (cx.sym shape.id).ns⟩ unionParts
      (unionAlias (cx.sym shape.id) (variants ++ [cx.helper shape.id Symbol.unknownRole])) [] := by
    intro variants
    cases variants with
    | nil => exact unionAlias_keeps _ _ []
    | cons variant variants => exact unionAlias_keeps _ variant _
  refine Shows.congr ((Shows.scope (hvariants.seq fun variants => (unknownClass_keeps _).seq fun _ =>
    keeps_separate.seq fun _ => (halias variants).seq fun _ => (keeps_trailingDocs _).seq fun _ =>
    keeps_separate.seq fun _ => unionReader_keeps members _ _ _) hplace).seq fun _ => keeps_separate) ?_
  simp [unionOutline]

/-! ### Declarations -/

/-- The sections of the declarations of a structure or union. -/
def memberSections (id : ShapeId) (members : List Member) : List Section :=
  [.schema id, .struct id, .union id] ++ members.map fun m => .unionMember m.id

theorem forSection_eq_nil {registry : Registry} {place : Section} (h : ∀ i ∈ registry, i.place ≠ place) :
    registry.forSection place = [] :=
  List.eq_nil_iff_forall_not_mem.2 fun i hi => h i (Registry.mem_forSection.1 hi).1 (Registry.mem_forSection.1 hi).2

section Declarations

variable {cx : Context} {registry : Registry} {shape : Shape} {members : List Member}
  (hdefinition : shape.isTraitDefinition = false) (hplace : ∀ place ∈ memberSections shape.id members,
    registry.forSection place = [])

include hdefinition hplace

/-- The declarations of a structure: an edit with the schema, and one with the class. -/
theorem structure_declarations (hkind : shape.kind = .struct members) :
    cx.Ensures (shapeDeclarations cx shape) fun out _ _ => ∃ schemas models, out = [schemas, models] ∧
      schemas.At (cx.helper shape.id Symbol.schemaRole) ∧ models.At (cx.sym shape.id) ∧
      schemas.Keeps registry dictionaries [memberDictionary cx shape members] ∧
      models.Keeps registry methods
        (structureMethods cx (cx.sym shape.id).ns (cx.helper shape.id Symbol.schemaRole) members) := by
  have hschema := schema_edits cx (.inl hkind) (hplace _ (by simp [memberSections]))
  have hclass := structureClass_edits cx members (hplace (.struct shape.id) (by simp [memberSections]))
  unfold shapeDeclarations
  rw [hdefinition, hkind]
  refine Ensures.bind hschema fun out _ t hout => hclass.mono fun out' _ t' _ hout' _ => ?_
  obtain ⟨schemas, rfl, hschemas, hdictionary⟩ := hout
  obtain ⟨models, rfl, hmodels, hmethods⟩ := hout'
  exact ⟨schemas, models, rfl, hschemas, hmodels, hdictionary, hmethods⟩

theorem union_declarations (hkind : shape.kind = .union members) :
    cx.Ensures (shapeDeclarations cx shape) fun out _ _ => ∃ schemas models, out = [schemas, models] ∧
      schemas.At (cx.helper shape.id Symbol.schemaRole) ∧ models.At (cx.sym shape.id) ∧
      schemas.Keeps registry dictionaries [memberDictionary cx shape members] ∧
      models.Keeps registry unionParts (unionOutline cx shape.id members) := by
  have hvariants : ∀ m ∈ members, registry.forSection (.unionMember m.id) = [] := fun m hm =>
    hplace _ (List.mem_append_right _ (List.mem_map.2 ⟨m, hm, rfl⟩))
  have hschema := schema_edits cx (.inr hkind) (hplace _ (by simp [memberSections]))
  have hclasses := unionClasses_edits cx members (hplace (.union shape.id) (by simp [memberSections])) hvariants
  unfold shapeDeclarations
  rw [hdefinition, hkind]
  refine Ensures.bind hschema fun out _ t hout => hclasses.mono fun out' _ t' _ hout' _ => ?_
  obtain ⟨schemas, rfl, hschemas, hdictionary⟩ := hout
  obtain ⟨models, rfl, hmodels, houtline⟩ := hout'
  exact ⟨schemas, models, rfl, hschemas, hmodels, hdictionary, houtline⟩

end Declarations

/-- An id of the model `chain`. -/
def chainId (name : String) : ShapeId := { ns := "ex", name }

def linkMembers : List Member := [
  { id := (chainId "Link").withMember "node", target := chainId "Node" },
  { id := (chainId "Link").withMember "end", target := .prelude "String" }]

def link : Shape where
  id := chainId "Link"
  kind := .union linkMembers

/-- A structure and a union that hold each other. -/
def chain : Model where
  shapes := [
    { id := chainId "Node", kind := .struct [{ id := (chainId "Node").withMember "next", target := chainId "Link" }] },
    link]
  distinct := by decide

def chainContext : Context where
  model := chain
  settings := { service := chainId "Node", module := "p", outputDir := ⟨"out"⟩ }
  provider := { package := "p" }
  order := ⟨[], [chainId "Link", chainId "Node"]⟩
  service := { id := chainId "Node", kind := .struct [] }

theorem sym_link : chainContext.sym (chainId "Link") = Naming.unionType "p" (chainId "Link") := by
  have hplain : chainContext.provider.Denotes chainContext.model (chainId "Link")
      (chainContext.provider.decorate (chainId "Link") (Naming.unionType "p" (chainId "Link"))) :=
    @Provider.Denotes.plain _ _ _ link _ rfl rfl rfl rfl
  exact sym_eq hplain

theorem memberDictionary_link : memberDictionary chainContext link linkMembers =
    .block "LINK.update_members(\x7b" [.block "\"node\": \x7b" [], .block "\"end\": \x7b" []] := by
  have hname : (chainContext.helper (chainId "Link") Symbol.schemaRole).name ++ ".update_members(\x7b" =
      "LINK.update_members(\x7b" := by
    unfold helper
    rw [sym_link]
    decide +kernel
  have hnode : Text.quote "node" ++ ": \x7b" = "\"node\": \x7b" := by decide +kernel
  have hend : Text.quote "end" ++ ": \x7b" = "\"end\": \x7b" := by decide +kernel
  show Outline.block ((chainContext.helper (chainId "Link") Symbol.schemaRole).name ++ ".update_members(\x7b")
    [.block (Text.quote "node" ++ ": \x7b") [], .block (Text.quote "end" ++ ": \x7b") []] = _
  rw [hname, hnode, hend]

end ClientGen.Package
