import ClientGen.Auth
import ClientGen.Proofs.Reachability
import Mathlib

/-!
# Auth schemes in a pruned model

Whether a trait defines an auth scheme is read off its shape, unless it is one of the known schemes. A
trait that is applied is not a reference, so pruning may take that shape away.

* `Auth.isDefinition_prune`: the traits that still define a scheme after pruning.
* `AuthResolution.of_congr`: the resolution looks at the model only to find the schemes that a service
  applies.
* `AuthResolution.of_prune`: pruning leaves the resolution alone if no applied scheme loses its shape; and
  where one does, a service without a list of its own resolves to less, and one that lists it is refused.
-/

namespace ClientGen

variable {m p : Model} {root : ShapeId} {s : Shape}

namespace Auth

/-- The trait defines a scheme for any model, or references lead from the root to its shape. -/
def Survives (m : Model) (root id : ShapeId) : Prop := id ∈ knownSchemes ∨ m.Reaches root id.root

theorem isDefinition_iff {id : ShapeId} : isDefinition m id = true ↔
    id ∈ knownSchemes ∨ ∃ shape, m.get? id = some shape ∧ shape.traits.has TraitId.authDefinition = true := by
  unfold isDefinition
  cases m.get? id <;> simp

theorem prelude_authDefinition {id : ShapeId} {shape : Shape} (h : Prelude.shape? id = some shape) :
    shape.traits.has TraitId.authDefinition = false := by
  unfold Prelude.shape? at h
  split at h
  · cases h
    decide
  · split at h
    · obtain ⟨e, -, rfl⟩ := Option.map_eq_some_iff.1 h
      rfl
    · cases h

/-- **The schemes that pruning leaves**: those known anyway, and those whose shapes are reached. -/
theorem isDefinition_prune (h : m.prune root = .ok p) (id : ShapeId) :
    isDefinition p id = true ↔ isDefinition m id = true ∧ Survives m root id := by
  rw [isDefinition_iff, isDefinition_iff]
  by_cases hknown : id ∈ knownSchemes
  · simp [hknown, Survives]
  have hdeclared : ∀ {n : Model} {shape : Shape}, n.get? id = some shape →
      shape.traits.has TraitId.authDefinition = true → ∃ s, n.declared? id.root = some s := by
    intro n shape hget hauth
    unfold Model.get? at hget
    split at hget
    · rename_i hd
      exact ⟨_, hd⟩
    · rw [prelude_authDefinition hget] at hauth
      cases hauth
  constructor
  · rintro (hk | ⟨shape, hget, hauth⟩)
    · exact absurd hk hknown
    -- a shape that is left was declared, and it was kept because it is reached
    obtain ⟨s, hs⟩ := hdeclared hget hauth
    cases hm : m.declared? id.root with
    | none =>
      rw [Model.declared?_prune_none h hm] at hs
      cases hs
    | some s' =>
      have hreach : m.Reaches root id.root := by
        by_contra hno
        rw [(Model.declared?_prune h hm).2 hno] at hs
        cases hs
      rw [Model.get?_prune h fun _ => hreach] at hget
      exact ⟨.inr ⟨shape, hget, hauth⟩, .inr hreach⟩
  · rintro ⟨hk | ⟨shape, hget, hauth⟩, hk' | hreach⟩
    · exact absurd hk hknown
    · exact absurd hk hknown
    · exact absurd hk' hknown
    · refine .inr ⟨shape, ?_, hauth⟩
      rw [Model.get?_prune h fun _ => hreach, hget]

theorem mem_applied {id : ShapeId} : id ∈ applied m s ↔ id ∈ s.traits.ids ∧ isDefinition m id = true := by
  unfold applied
  rw [Model.mem_sortIds, List.mem_filter]

/-- The schemes that a service applies, in the pruned model and in the whole one. -/
theorem mem_applied_prune (h : m.prune root = .ok p) {id : ShapeId} :
    id ∈ applied p s ↔ id ∈ applied m s ∧ Survives m root id := by
  rw [mem_applied, mem_applied, isDefinition_prune h, and_assoc]

theorem applied_prune (h : m.prune root = .ok p) (hs : ∀ id ∈ applied m s, Survives m root id) :
    applied p s = applied m s := by
  unfold applied
  congr 1
  apply List.filter_congr
  intro id hid
  rw [Bool.eq_iff_iff, isDefinition_prune h]
  exact ⟨fun hd => hd.1, fun hd => ⟨hd, hs id (mem_applied.2 ⟨hid, hd⟩)⟩⟩

end Auth

namespace AuthResolution

open Auth

/-- **The model matters only through the schemes that the service applies.** -/
theorem of_congr (h : applied p s = applied m s) (operations : List Shape) (registered : List ShapeId) :
    of p s operations registered = of m s operations registered := by
  have hservice : serviceSchemes p s = serviceSchemes m s := by
    unfold serviceSchemes
    rw [h]
  have hoverride : override? p s operations = override? m s operations := by
    funext operation
    unfold override? operationSchemes?
    rw [h]
  unfold of
  rw [hservice, hoverride]

/-- The resolution of a service without a list of its own, where no operation has one either. -/
theorem of_unlisted (hl : listed? s = .ok none) (registered : List ShapeId) :
    of m s [] registered = .ok { service := (applied m s).filter registered.contains, overrides := [] } := by
  unfold of serviceSchemes
  rw [hl]
  rfl

theorem of_listed {ids : List ShapeId} (hl : listed? s = .ok (some ids)) (hids : ∀ id ∈ ids, id ∈ applied m s)
    (registered : List ShapeId) :
    of m s [] registered = .ok { service := ids.filter registered.contains, overrides := [] } := by
  have hnone : ids.find? (fun id => !(applied m s).contains id) = none := by
    rw [List.find?_eq_none]
    intro id hid
    simp [hids id hid]
  unfold of serviceSchemes
  rw [hl]
  dsimp only [bind, Except.bind]
  rw [hnone]
  rfl

theorem of_unapplied {ids : List ShapeId} {id : ShapeId} (hl : listed? s = .ok (some ids))
    (hid : ids.find? (fun id => !(applied m s).contains id) = some id) (operations : List Shape)
    (registered : List ShapeId) :
    of m s operations registered = .error (.invalidModel (.unappliedScheme s.id id)) := by
  unfold of serviceSchemes
  rw [hl]
  dsimp only [bind, Except.bind]
  rw [hid]
  rfl

/-- **What pruning does to the resolution.** A trait defines a scheme in the pruned model if it did before
and is a known scheme, or if references lead from the service to its shape. Then
1. if all schemes that the service applies are such, the resolution is the same, whatever the operations
   and the registered schemes;
2. without a list on the service, that is the only case in which it is always the same;
3. with a list of applied schemes, one of which is lost, the service resolves to its list over the whole
   model, and every resolution over the pruned one fails. -/
theorem of_prune (m p : Model) (s : Shape) (h : m.prune s.id = .ok p) :
    (∀ id, isDefinition p id = true ↔ isDefinition m id = true ∧ Survives m s.id id) ∧
    ((∀ id ∈ applied m s, Survives m s.id id) →
      ∀ operations registered, of p s operations registered = of m s operations registered) ∧
    (listed? s = .ok none →
      (∀ operations registered, of p s operations registered = of m s operations registered) →
      ∀ id ∈ applied m s, Survives m s.id id) ∧
    (∀ ids lost, listed? s = .ok (some ids) → (∀ id ∈ ids, id ∈ applied m s) → lost ∈ ids →
      ¬ Survives m s.id lost →
      (∀ registered, of m s [] registered =
        .ok { service := ids.filter registered.contains, overrides := [] }) ∧
      ∃ id ∈ ids, ∀ operations registered,
        of p s operations registered = .error (.invalidModel (.unappliedScheme s.id id))) := by
  refine ⟨isDefinition_prune h, ?_, ?_, ?_⟩
  · intro hs operations registered
    exact of_congr (applied_prune h hs) operations registered
  · intro hl hsame id hid
    -- with all applied schemes registered, the two lists of the service can be compared
    have heq := hsame [] (applied m s)
    rw [of_unlisted hl, of_unlisted hl] at heq
    have hlists := congrArg AuthResolution.service (Except.ok.inj heq)
    simp only at hlists
    have hmem : id ∈ (applied m s).filter (applied m s).contains := by
      rw [List.mem_filter]
      exact ⟨hid, List.contains_iff_mem.2 hid⟩
    rw [← hlists] at hmem
    exact ((mem_applied_prune h).1 (List.mem_of_mem_filter hmem)).2
  · intro ids lost hl hids hlost hno
    refine ⟨of_listed hl hids, ?_⟩
    have hfind : (ids.find? fun id => !(applied p s).contains id).isSome = true := by
      rw [List.find?_isSome]
      refine ⟨lost, hlost, ?_⟩
      rw [Bool.not_eq_true', Bool.eq_false_iff, Ne, List.contains_iff_mem]
      exact fun hmem => hno ((mem_applied_prune h).1 hmem).2
    obtain ⟨id, hid⟩ := Option.isSome_iff_exists.1 hfind
    exact ⟨id, List.mem_of_find?_eq_some hid, of_unapplied hl hid⟩

/-- A service that applies and lists the scheme of a trait that its model defines. -/
def signedService : Shape where
  id := { ns := "ex", name := "Svc" }
  kind := .service {}
  traits := ⟨[({ ns := "ex", name := "customAuth" }, .obj []),
    (TraitId.auth, .arr [.str "ex#customAuth"])]⟩

def signedModel : Model where
  shapes := [signedService, {
    id := { ns := "ex", name := "customAuth" }
    kind := .struct []
    traits := ⟨[(TraitId.definition, .obj []), (TraitId.authDefinition, .obj [])]⟩ }]
  distinct := by decide

/-- The pruned model, which has lost the shape of the trait, refuses what the whole model resolves. -/
theorem of_prune_signed : ∃ p, signedModel.prune signedService.id = .ok p ∧
    of signedModel signedService [] [{ ns := "ex", name := "customAuth" }] =
      .ok { service := [{ ns := "ex", name := "customAuth" }], overrides := [] } ∧
    ∃ id, ∀ operations registered,
      of p signedService operations registered = .error (.invalidModel (.unappliedScheme signedService.id id)) := by
  have hprune : signedModel.prune signedService.id =
      .ok { shapes := [signedService], distinct := by decide } := by cbv
  refine ⟨_, hprune, ?_⟩
  obtain ⟨hdef, -, -, hlisted⟩ := of_prune signedModel _ signedService hprune
  have hlost : ¬ Survives signedModel signedService.id { ns := "ex", name := "customAuth" } := by
    intro hs
    have := (hdef { ns := "ex", name := "customAuth" }).2 ⟨by decide, hs⟩
    revert this
    decide
  obtain ⟨hwhole, id, -, hfails⟩ := hlisted [{ ns := "ex", name := "customAuth" }] _ (by rfl)
    (by simp only [mem_applied]; decide) (by simp) hlost
  exact ⟨hwhole _, id, hfails⟩

end AuthResolution

end ClientGen
