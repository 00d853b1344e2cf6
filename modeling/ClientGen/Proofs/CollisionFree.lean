import ClientGen.Package.Generation
import ClientGen.Proofs.Collision

/-!
# Computations without collisions of names

Nothing that generation does besides looking up symbols fails with a collision of names. The facts are
instances of the class `CollisionFree`, so that the one about a computation is found from those about its
parts.
-/

namespace ClientGen

/-- The computation does not fail with a collision of names. -/
class CollisionFree {α : Type} (x : Except Error α) : Prop where
  quiet : ∀ e, x = .error e → e.isCollision = false

section Rules

variable {α β : Type}

instance (a : α) : CollisionFree (.ok a) := ⟨fun _ h => by cases h⟩

instance (a : α) : CollisionFree (pure a) := ⟨fun _ h => by cases h⟩

theorem collisionFree_error {e : Error} (h : e.isCollision = false) : CollisionFree (.error e : Except Error α) := by
  constructor
  rintro _ ⟨⟩
  exact h

theorem CollisionFree.bind {x : Except Error α} {f : α → Except Error β} (hx : CollisionFree x)
    (hf : ∀ a, x = .ok a → CollisionFree (f a)) : CollisionFree (x >>= f) := by
  constructor
  intro e h
  cases hr : x with
  | error e' =>
    rw [hr] at h
    cases h
    exact hx.quiet _ hr
  | ok a =>
    rw [hr] at h
    exact (hf a hr).quiet e h

instance (x : Except Error α) (f : α → Except Error β) [CollisionFree x] [∀ a, CollisionFree (f a)] :
    CollisionFree (x >>= f) :=
  .bind inferInstance fun _ _ => inferInstance

instance (c : Prop) [Decidable c] (x y : Except Error α) [CollisionFree x] [CollisionFree y] :
    CollisionFree (if c then x else y) := by
  split <;> infer_instance

instance (x : Except Error α) (f : α → β) [hx : CollisionFree x] : CollisionFree (x.map f) := by
  constructor
  intro e h
  cases hr : x with
  | error e' =>
    rw [hr] at h
    cases h
    exact hx.quiet _ hr
  | ok a =>
    rw [hr] at h
    cases h

theorem CollisionFree.mapM {as : List α} {f : α → Except Error β} (h : ∀ a, CollisionFree (f a)) :
    CollisionFree (as.mapM f) := by
  induction as with
  | nil =>
    rw [List.mapM_nil]
    infer_instance
  | cons a as ih =>
    rw [List.mapM_cons]
    infer_instance

instance (as : List α) (f : α → Except Error β) [∀ a, CollisionFree (f a)] : CollisionFree (as.mapM f) :=
  .mapM inferInstance

theorem CollisionFree.forM {as : List α} {f : α → Except Error PUnit} (h : ∀ a, CollisionFree (f a)) :
    CollisionFree (as.forM f) := by
  induction as with
  | nil => exact inferInstanceAs (CollisionFree (pure PUnit.unit))
  | cons a as ih => exact inferInstanceAs (CollisionFree (f a >>= fun _ => as.forM f))

theorem CollisionFree.foldlM {as : List α} {f : β → α → Except Error β} (h : ∀ b a, CollisionFree (f b a)) :
    ∀ b, CollisionFree (as.foldlM f b) := by
  induction as with
  | nil =>
    intro b
    rw [List.foldlM_nil]
    infer_instance
  | cons a as ih =>
    intro b
    rw [List.foldlM_cons]
    infer_instance

end Rules

/-! ### The model -/

instance (s : String) : CollisionFree (ShapeId.readRelative s) := by
  unfold ShapeId.readRelative ShapeId.read
  split
  · infer_instance
  · exact collisionFree_error rfl

instance (s : Symbol) (role : String) : CollisionFree (s.property role) := by
  unfold Symbol.property
  split
  · infer_instance
  · exact collisionFree_error rfl

namespace Model

variable (m : Model) (id : ShapeId)

instance : CollisionFree (m.expect id) := by
  unfold expect
  split
  · infer_instance
  · exact collisionFree_error rfl

instance : CollisionFree (m.service id) := by
  refine .bind inferInstance fun shape _ => ?_
  split
  · infer_instance
  · exact collisionFree_error rfl

instance (service : ShapeId) : CollisionFree (m.operation service id) := by
  unfold operation
  split
  · split
    · infer_instance
    · exact collisionFree_error rfl
  · exact collisionFree_error rfl

instance : CollisionFree (m.serviceOperations id) := by
  unfold serviceOperations
  infer_instance

instance (s : Shape) : CollisionFree (m.resolveReferences s) := by
  refine .mapM fun target => ?_
  split
  · infer_instance
  · exact collisionFree_error rfl

instance (fuel : Nat) (stack : List Shape) (seen : List ShapeId) : CollisionFree (m.walkFrom fuel stack seen) := by
  induction fuel generalizing stack seen with
  | zero => exact inferInstanceAs (CollisionFree (.ok seen))
  | succ fuel ih =>
    rw [walkFrom]
    split <;> infer_instance

instance : CollisionFree (m.walk id) := by
  unfold walk
  infer_instance

instance : CollisionFree (m.prune id) := by
  unfold prune
  infer_instance

instance (r : Requirement) : CollisionFree r.check := by
  unfold Requirement.check
  split
  · infer_instance
  · split
    · infer_instance
    · split
      · exact collisionFree_error rfl
      · split
        · exact collisionFree_error rfl
        · infer_instance

instance : CollisionFree m.checkGenerator := by
  unfold checkGenerator
  split
  · infer_instance
  · refine .forM fun entry => ?_
    split
    · infer_instance
    · exact collisionFree_error rfl
  · exact collisionFree_error rfl

instance : CollisionFree (m.referenceGraph id) := by
  unfold referenceGraph
  infer_instance

end Model

instance (m : Model) (root : ShapeId) : CollisionFree (EmissionOrder.of m root) := by
  refine .bind inferInstance fun g _ => ?_
  dsimp only
  split
  · infer_instance
  · exact collisionFree_error rfl

/-! ### Auth schemes -/

namespace Auth

instance (t : Traits) (id : ShapeId) : CollisionFree (t.texts? id) := by
  unfold Traits.texts?
  split
  · infer_instance
  · split
    · infer_instance
    · exact collisionFree_error rfl
  · exact collisionFree_error rfl

instance (s : Shape) : CollisionFree (listed? s) := by
  refine .bind inferInstance fun names _ => ?_
  split <;> infer_instance

instance (m : Model) (s : Shape) : CollisionFree (serviceSchemes m s) := by
  refine .bind inferInstance fun found _ => ?_
  split
  · infer_instance
  · split
    · exact collisionFree_error rfl
    · infer_instance

instance (m : Model) (s operation : Shape) : CollisionFree (operationSchemes? m s operation) := by
  refine .bind inferInstance fun found _ => ?_
  split <;> infer_instance

end Auth

instance (m : Model) (s : Shape) (operations : List Shape) (operation : Shape) :
    CollisionFree (AuthResolution.override? m s operations operation) := by
  refine .bind inferInstance fun found _ => ?_
  split
  · infer_instance
  · dsimp only
    split
    · exact collisionFree_error rfl
    · infer_instance

instance (m : Model) (s : Shape) (operations : List Shape) (registered : List ShapeId) :
    CollisionFree (AuthResolution.of m s operations registered) := by
  refine .bind inferInstance fun schemes _ => .bind (.foldlM (fun acc operation => ?_) _) fun _ _ => inferInstance
  refine .bind inferInstance fun found _ => ?_
  split <;> infer_instance

/-! ### The parts of a package -/

namespace Page

instance (strict : Bool) (data : Json) (name : String) : CollisionFree (lookup strict data name) := by
  unfold lookup
  split
  · infer_instance
  · split
    · exact collisionFree_error rfl
    · infer_instance

instance (name : String) (argument : Json) : CollisionFree (applyHelper name argument) := by
  unfold applyHelper
  split
  · split
    · infer_instance
    · exact collisionFree_error rfl
  · exact collisionFree_error rfl
  · exact collisionFree_error rfl

mutual

theorem renderPart_collisionFree (strict : Bool) : ∀ (part : Part) (data : Json),
    CollisionFree (renderPart strict part data)
  | .text s, _ => inferInstanceAs (CollisionFree (.ok s))
  | .value name, data => by
    unfold renderPart
    split
    · exact collisionFree_error rfl
    · infer_instance
  | .helper name argument, data => by
    unfold renderPart
    infer_instance
  | .ifSet name body, data => by
    have hbody := renderParts_collisionFree strict body data
    unfold renderPart
    infer_instance
  | .each name body, data => by
    have hbody := renderParts_collisionFree strict body
    unfold renderPart
    refine .bind inferInstance fun v _ => ?_
    split <;> infer_instance

theorem renderParts_collisionFree (strict : Bool) : ∀ (parts : List Part) (data : Json),
    CollisionFree (renderParts strict parts data)
  | [], _ => inferInstanceAs (CollisionFree (.ok ""))
  | part :: rest, data => by
    have hpart := renderPart_collisionFree strict part data
    have hrest := renderParts_collisionFree strict rest data
    unfold renderParts
    infer_instance

end

end Page

instance (info : ProjectInfo) (name : String) : CollisionFree (info.render name) := by
  unfold ProjectInfo.render
  split
  · unfold Page.renderLines
    split
    · exact Page.renderParts_collisionFree _ _ _
    · exact collisionFree_error rfl
  · exact collisionFree_error rfl

namespace Package

instance (id : ShapeId) (values : List EnumValue) (text : String) : CollisionFree (constantFor id values text) := by
  unfold constantFor
  split
  · infer_instance
  · exact collisionFree_error rfl

instance (s : Shape) : CollisionFree (errorFault s) := by
  unfold errorFault
  dsimp only
  split
  · infer_instance
  · infer_instance
  · exact collisionFree_error rfl

instance (routing : Routing) (service operation : Shape) : CollisionFree (requestLine routing service operation) := by
  unfold requestLine
  split
  · infer_instance
  · split
    · infer_instance
    · split
      · infer_instance
      · exact collisionFree_error rfl

instance (cx : Context) (operation : ShapeId) (input : Option ShapeId) (label : List Char) :
    CollisionFree (labelMember cx operation input label) := by
  unfold labelMember
  dsimp only
  split
  · infer_instance
  · exact collisionFree_error rfl

instance (schemes : List AuthScheme) (id : ShapeId) : CollisionFree (findScheme schemes id) := by
  unfold findScheme
  split
  · infer_instance
  · exact collisionFree_error rfl

instance (schemes : List AuthScheme) (ids : List ShapeId) : CollisionFree (factoryList schemes ids) := by
  unfold factoryList
  infer_instance

instance {α : Type} (service : Shape) (id : ShapeId) (read : Json → Option α) :
    CollisionFree (serviceTrait service id read) := by
  unfold serviceTrait
  split
  · exact collisionFree_error rfl
  · split
    · infer_instance
    · exact collisionFree_error rfl

/-! ### Before and after the plan of a run -/

instance (settings : Settings) : CollisionFree (integrationsFor settings) := by
  refine .bind (.mapM fun name => ?_) fun _ _ => inferInstance
  unfold findIntegration
  split
  · infer_instance
  · exact collisionFree_error rfl

instance (integrations : List Integration) (m : Model) (settings : Settings) (service : Shape) :
    CollisionFree (clientProtocol integrations m settings service) := by
  unfold clientProtocol Protocol.select
  dsimp only
  split
  · split
    · split
      · exact collisionFree_error rfl
      · split
        · infer_instance
        · exact collisionFree_error rfl
    · infer_instance
  · infer_instance

instance (integrations : List Integration) (m : Model) (settings : Settings) :
    CollisionFree (prepare integrations m settings) := by
  unfold prepare
  infer_instance

instance (cx : Context) : CollisionFree cx.operations := by
  unfold Context.operations
  infer_instance

instance (cx : Context) (client : Option Symbol) (dependencies : List Dependency) :
    CollisionFree (projectInfo cx client dependencies) := by
  unfold projectInfo
  dsimp only
  split <;> infer_instance

instance (info : ProjectInfo) (files : Manifest) (path : Path) (page : String) :
    CollisionFree (addProjectFile info files path page) := by
  unfold addProjectFile
  infer_instance

end Package

end ClientGen
