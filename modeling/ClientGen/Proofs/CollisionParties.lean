import ClientGen.Proofs.ClientConduct
import ClientGen.Proofs.DeclarationClosure
import ClientGen.Proofs.Reachability

/-!
# The parties to a collision

When generation fails with a collision of names, both parties declare the name, and the run asked for both. For
all shapes of the closure something is declared, except for definitions of traits, operations and services. Those are
asked for if a member targets them, and so is the unit type of the prelude, for every enumeration. They then take a name
that is never written, and another shape that has it cannot be generated.

* `generate_collision`: the parties to a collision.
-/

namespace ClientGen.Package

open Naming Provider

variable {run : Run} {package : String} {id : ShapeId} {m : Model} {name : String × String}

/-- **How a run comes to ask for the symbol of an id.** -/
inductive Run.Asks (run : Run) : ShapeId → Prop where
  /-- For the schema of a shape on a cycle. -/
  | shell {id : ShapeId} : id ∈ run.cx.order.recursive → Asks run id
  /-- For the declarations of a shape. -/
  | shape {shape : Shape} : run.cx.Emits shape → Asks run shape.id
  /-- For the variants of a union. -/
  | variant {shape : Shape} {members : List Member} {member : Member} : run.cx.Emits shape →
      shape.kind = .union members → member ∈ members → Asks run member.id
  /-- For the targets of members; those of an enumeration target the unit type. -/
  | target {shape : Shape} {target : ShapeId} : run.cx.Emits shape → target ∈ schemaTargets shape.kind → Asks run target
  /-- For the client class. -/
  | service : run.cx.settings.artifact = .client → Asks run run.cx.service.id
  /-- For the methods of the client. -/
  | operation {operations : List (Shape × Operation)} {o : Shape × Operation} : run.cx.settings.artifact = .client →
      run.cx.operations = .ok operations → o ∈ operations → Asks run o.1.id
  /-- For what an operation takes, returns and raises. -/
  | value {operations : List (Shape × Operation)} {o : Shape × Operation} {target : ShapeId} :
      run.cx.settings.artifact = .client → run.cx.operations = .ok operations → o ∈ operations →
      target ∈ o.2.valueTargets ++ operationErrors run.cx.service o.2 → Asks run target
  /-- For another symbol. -/
  | madeFrom {id next : ShapeId} : Asks run id → MadeFrom run.cx.model id next → Asks run next

/-- A run, with the ids that it asks for. -/
def Run.survey (run : Run) : Survey := ⟨run.cx, run.Asks, .madeFrom⟩

/-- The run declares something for the id. -/
inductive Run.Declares (run : Run) : ShapeId → Prop where
  | shape {shape : Shape} : run.cx.Emits shape → Declares run shape.id
  | variant {shape : Shape} {members : List Member} {member : Member} {name : String} : run.cx.Emits shape →
      shape.kind = .union members → shape.member? name = some member → Declares run (shape.id.withMember name)
  | service : run.cx.settings.artifact = .client → Declares run run.cx.service.id
  | operation {operations : List (Shape × Operation)} {o : Shape × Operation} : run.cx.settings.artifact = .client →
      run.cx.operations = .ok operations → o ∈ operations → Declares run o.1.id

/-- The id is that of the unit type, or leads to a definition of a trait, an operation or a service. -/
def Run.Withholds (run : Run) (id : ShapeId) : Prop :=
  id = Prelude.unit ∨ ∃ shape ∈ run.cx.model.shapes, run.cx.model.get? id = some shape ∧ shape.isEmitted = false

theorem covers_types (hplaced : run.cx.Placed) : CoversTypes run.survey where
  shells := by
    intro id hid shape hs
    obtain ⟨shape', -, hshape, hs'⟩ := hplaced id (List.mem_append_right _ hid)
    cases hs.symm.trans hs'
    rw [hshape]
    exact ⟨.shell hid, .shell hid⟩
  shapes := by
    intro id hid shape hs hemitted target htarget
    obtain ⟨shape', -, rfl, hs'⟩ := hplaced id hid
    cases hs.symm.trans hs'
    have he : run.cx.Emits shape := ⟨hid, hs, hemitted⟩
    rw [askedBy, List.mem_append, List.mem_cons] at htarget
    rcases htarget with (rfl | htarget) | htarget
    · exact .shape he
    · exact .target he htarget
    · split at htarget
      · rename_i members hk
        obtain ⟨member, hmember, rfl⟩ := List.mem_map.1 htarget
        exact .variant he hk hmember
      · cases htarget

theorem covers_client (hartifact : run.cx.settings.artifact = .client) : CoversClient run.survey where
  service := ⟨.service hartifact⟩
  operations := by
    intro operations hoperations o ho
    refine ⟨⟨.operation hartifact hoperations ho⟩, fun target ht => ⟨?_⟩, fun target ht => ⟨?_⟩⟩
    · exact .value hartifact hoperations ho (List.mem_append_left _ ht)
    · exact .value hartifact hoperations ho (List.mem_append_right _ ht)

/-! ### Which ids declare names -/

theorem mem_order {m p : Model} {root : ShapeId} {o : EmissionOrder} (hp : m.prune root = .ok p)
    (ho : EmissionOrder.of p root = .ok o) {shape : Shape} (hs : shape ∈ p.shapes) : shape.id ∈ o.all := by
  obtain ⟨nodes, hnodes, hkeep⟩ := Model.prune_ok hp
  have hdeclared : p.declares shape.id = true := by
    rw [Model.declares_eq]
    exact List.any_eq_true.2 ⟨shape, hs, beq_self_eq_true _⟩
  have hreached : m.Reaches root shape.id := by
    rw [hkeep] at hs
    exact ((Model.mem_walk_iff hnodes).1 (by simpa using (List.mem_filter.1 hs).2)).2
  obtain ⟨reached, hwalk, hvalid⟩ := EmissionOrder.valid_of_ok ho
  exact (hvalid.mem_all _).2 ((Model.mem_walk_iff hwalk).2 ⟨hdeclared, Model.prune_reaches hp hreached⟩)

theorem scalar_declarations (hid : id.isPrelude = true) (type : Scalar) :
    ((scalar type).withProperty Symbol.schemaRole (Naming.schema package id)).declarations = [] := by
  have hschema : Naming.schema package id = Library.preludeSchema (Text.screamingCase id.name) := by
    unfold Naming.schema
    rw [if_pos hid]
  rw [hschema]
  cases type <;> rfl

/-- An id that declares a name is that of a shape, or of a member of a union. -/
theorem reserves_form {p : Provider} (h : p.Reserves m id name) :
    ∃ shape, m.get? id = some shape ∧ (id = shape.id ∨ ∃ text members member, id = shape.id.withMember text ∧
      shape.kind = .union members ∧ shape.member? text = some member) := by
  obtain ⟨hst, s, hden, -⟩ := h
  cases hden with
  | standsFor hst' =>
    rw [hst] at hst'
    cases hst'
  | @variant _ text _ _ _ hid hs hk hm =>
    refine ⟨_, hs, .inr ⟨_, _, _, ?_, hk, hm⟩⟩
    rw [(Model.get?_id hs).1, ShapeId.withMember, ShapeId.root, ← hid]
  | plain hid hs | collection hid hs => exact ⟨_, hs, .inl (Model.shape_id hs hid).symm⟩

/-- Of the prelude only the unit type declares a name. -/
theorem reserves_prelude {shape : Shape} (h : Provider.Reserves { package } m id name) (hs : m.get? id = some shape)
    (hp : Prelude.shape? shape.id = some shape) (hid : id = shape.id) : id = Prelude.unit := by
  unfold Prelude.shape? at hp
  split at hp
  · rename_i hunit
    rw [hid]
    exact eq_of_beq hunit
  · split at hp
    · rename_i hprelude
      obtain ⟨e, -, he⟩ := Option.map_eq_some_iff.1 hp
      have hkind : shape.kind = .scalar e.2 := by rw [← he]
      have hmember : id.member = none := by
        rw [hid]
        simpa [ShapeId.isMember] using (Bool.and_eq_true_iff.1 hprelude).2
      obtain ⟨-, s, hden, hname⟩ := h
      have hsymbol : Provider.Denotes { package } m id
          ((scalar e.2).withProperty Symbol.schemaRole (Naming.schema package id)) :=
        Provider.Denotes.plain (p := { package }) hmember hs (by rw [hkind]; rfl) (by rw [hkind]; rfl)
      rw [hden.unique hsymbol, scalar_declarations (by rw [hid]; exact (Bool.and_eq_true_iff.1 hprelude).1)] at hname
      cases hname
    · cases hp

/-- **Whatever declares a name is declared or withheld.** -/
theorem declares_or_withholds {settings : Settings} (hmade : run.Made m settings)
    (h : run.cx.provider.Reserves run.cx.model id name) : run.Declares id ∨ run.Withholds id := by
  have hcx := prepare_ok hmade.context
  obtain ⟨shape, hs, hform⟩ := reserves_form h
  rcases declared_or_prelude hs with hmem | hprelude
  · cases he : shape.isEmitted with
    | false => exact .inr (.inr ⟨shape, hmem, hs, he⟩)
    | true =>
      have hemits : run.cx.Emits shape := ⟨mem_order hcx.model hcx.order hmem, (Model.get?_id hs).2, he⟩
      rcases hform with rfl | ⟨text, members, member, rfl, hk, hmember⟩
      · exact .inl (.shape hemits)
      · exact .inl (.variant hemits hk hmember)
  · rcases hform with hid | ⟨text, members, member, -, -, hmember⟩
    · rw [hcx.provider, decorate_eq hmade.additive] at h
      refine .inr (.inl (reserves_prelude h hs ?_ hid))
      rw [(Model.get?_id hs).1]
      exact hprelude
    · simp [Shape.member?, prelude_members hprelude] at hmember

/-! ### Generation -/

theorem runOf_collisionFree (m : Model) (settings : Settings) : CollisionFree (Run.of [] m settings) := by
  unfold Run.of
  split
  · exact collisionFree_error rfl
  · refine .bind inferInstance fun _ _ => .bind inferInstance fun standard hstandard => ?_
    dsimp only
    rw [preprocess_eq (integrationsFor_additive hstandard)]
    infer_instance

variable {run : Run} {m : Model} {settings : Settings}

/-- All edits of a run are innocent, and a collision that its plan ends in is genuine. -/
theorem plan_conducts (hmade : run.Made m settings) :
    run.survey.Conducts run.plan run.survey.Sends fun _ => True := by
  have hcx := prepare_ok hmade.context
  have hprovider : run.cx.provider = { package := run.cx.package } := by
    rw [hcx.provider, decorate_eq hmade.additive, Context.package, hcx.settings]
  obtain ⟨protocol, hprotocol, -⟩ := hmade.http
  unfold Run.plan
  rw [hprotocol]
  exact packageEdits_conducts (v := run.survey) hprovider (covers_types fun id hid => order_placed hcx.order hid)
    covers_client protocol fun s hs => hmade.schemes hs

theorem carryOut_genuine (hmade : run.Made m settings) {e : Error}
    (h : carryOut { package, registry := [] } run.plan = .error e) : run.survey.Genuine e := by
  have hends := plan_conducts hmade {} Survey.tidy_empty
  rcases bind_error_iff.1 h with h | ⟨folder, -, h⟩
  · refine Folder.applyAll_raises (fun _ => Survey.genuine_of_quiet) (run.plan {}).out ?_ ?_ h
    · exact nofun
    · exact fun edit hedit => (hends.out edit hedit).innocent
  · rcases bind_error_iff.1 h with h | ⟨client, -, h⟩
    · exact hends.error e h
    · cases h

theorem generate_genuine {e : Error} (he : e.isCollision = true) (h : generate [] m settings = .error e) :
    ∃ run, Run.of [] m settings = .ok run ∧ run.survey.Genuine e := by
  have hquiet : ∀ {α : Type} {x : Except Error α} [CollisionFree x], x = .error e → False := by
    intro α x hx hxe
    rw [hx.quiet e hxe] at he
    cases he
  have hfree := runOf_collisionFree m settings
  rcases bind_error_iff.1 h with h | ⟨run, hrun, h⟩
  · exact (hquiet h).elim
  · refine ⟨run, hrun, ?_⟩
    have hmade := Run.of_ok hrun
    dsimp only at h
    rw [hmade.interceptors, hmade.customizations] at h
    rcases bind_error_iff.1 h with h | ⟨⟨folder, client⟩, -, h⟩
    · exact carryOut_genuine hmade h
    · -- what follows are the project files
      rw [List.foldlM_nil, pure_bind] at h
      exact (hquiet h).elim

/-- **The parties to a collision.** If generation fails with a collision, its two parties are different, the run asks
for both and both declare the name; and each is declared, or is the unit type, a definition of a trait, an operation or
a service that the run asks for. -/
theorem generate_collision {first second : ShapeId} {ns name : String}
    (h : generate [] m settings = .error (.namingCollision first second ns name)) :
    ∃ run, Run.of [] m settings = .ok run ∧ first ≠ second ∧ ∀ id ∈ [first, second],
      run.Asks id ∧ run.cx.provider.Reserves run.cx.model id (ns, name) ∧ (run.Declares id ∨ run.Withholds id) := by
  obtain ⟨run, hrun, hgenuine⟩ := generate_genuine rfl h
  obtain ⟨first', second', name', he, hne, hfirst, hsecond⟩ := hgenuine rfl
  cases he
  refine ⟨run, hrun, hne, ?_⟩
  have hparty : ∀ id, run.survey.Takes id (name'.1, name'.2) → run.Asks id ∧
      run.cx.provider.Reserves run.cx.model id (name'.1, name'.2) ∧ (run.Declares id ∨ run.Withholds id) :=
    fun id hid => ⟨hid.1, hid.2, declares_or_withholds (Run.of_ok hrun) hid.2⟩
  simp only [List.forall_mem_cons]
  exact ⟨hparty first hfirst, hparty second hsecond, by simp⟩

/-- The collision that a computation fails with. -/
def collision? : Except Error α → Option (ShapeId × ShapeId × String × String)
  | .error (.namingCollision first second ns name) => some (first, second, ns, name)
  | _ => none

theorem eq_of_collision? {x : Except Error α} {first second : ShapeId} {ns name : String}
    (h : collision? x = some (first, second, ns, name)) : x = .error (.namingCollision first second ns name) := by
  unfold collision? at h
  split at h
  · cases h
    rfl
  · cases h

/-- A service that takes a structure with the name of the unit type, which holds an enumeration. -/
def unitNamesake : Model where
  shapes := [
    { id := { ns := "a", name := "S" }, kind := .service { operations := [{ ns := "a", name := "O" }] } },
    { id := { ns := "a", name := "O" }, kind := .operation { input := some { ns := "a", name := "Unit" } } },
    { id := { ns := "a", name := "Unit" },
      kind := .struct [{ id := { ns := "a", name := "Unit", member := some "e" }, target := { ns := "a", name := "E" } }] },
    { id := { ns := "a", name := "E" }, kind := .enumeration [{ name := "RED", value := "red" }] }]
  distinct := by decide

/-- Its run. -/
def namesakeRun : Run where
  integrations := [httpAuth]
  cx := {
    model := unitNamesake
    settings := sampleSettings
    provider := { package := "p" }
    order := ⟨[{ ns := "a", name := "E" }, { ns := "a", name := "Unit" }, { ns := "a", name := "O" },
      { ns := "a", name := "S" }], []⟩
    service := { id := { ns := "a", name := "S" }, kind := .service { operations := [{ ns := "a", name := "O" }] } } }
  plugins := httpAuth.plugins
  protocol := none

/-- **A shape that is never written makes generation fail**: the enumeration asks for the unit type, which takes the
name of the structure. -/
theorem generate_collision_unit :
    generate [] unitNamesake sampleSettings =
      .error (.namingCollision Prelude.unit { ns := "a", name := "Unit" } "p.models" "Unit") ∧
    Run.of [] unitNamesake sampleSettings = .ok namesakeRun ∧ namesakeRun.Asks Prelude.unit ∧
      namesakeRun.Withholds Prelude.unit ∧ ¬ namesakeRun.Declares Prelude.unit := by
  have hrun : Run.of [] unitNamesake sampleSettings = .ok namesakeRun := by cbv
  have hcarried : collision? (carryOut { package := "p", registry := [] } namesakeRun.plan) =
      some (Prelude.unit, { ns := "a", name := "Unit" }, "p.models", "Unit") := by decide +kernel
  have hfailed : generate [] unitNamesake sampleSettings =
      .error (.namingCollision Prelude.unit { ns := "a", name := "Unit" } "p.models" "Unit") :=
    bind_error_iff.2 (.inr ⟨namesakeRun, hrun, bind_error_iff.2 (.inl (eq_of_collision? hcarried))⟩)
  have hnot : ¬ namesakeRun.Declares Prelude.unit := by
    intro h
    generalize hid : Prelude.unit = id at h
    cases h with
    | shape he =>
      have hplaced := he.1
      rw [← hid] at hplaced
      exact absurd hplaced (by decide)
    | variant => cases congrArg ShapeId.member hid
    | service hclient | operation hclient => cases hclient
  obtain ⟨run, hrun', -, hparties⟩ := generate_collision hfailed
  cases hrun.symm.trans hrun'
  obtain ⟨hasks, -, hunit⟩ := hparties Prelude.unit (by simp)
  exact ⟨hfailed, hrun, hasks, hunit.resolve_left hnot, hnot⟩

end ClientGen.Package
