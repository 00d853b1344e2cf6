import ClientGen.Integration
import ClientGen.Proofs.Reachability
import Mathlib

/-!
# The protocol of a service

A trait is taken for a protocol if one is registered for it, if it is a known one, or if the model says so. A choice
falls on registered protocols only, so the other two tell errors apart and nothing else: which protocol is chosen is a
matter of the traits of the service and of the registered ids.

* `Protocol.choose_perm`: the order in which protocols are registered does not matter to the id that is chosen.
* `Protocol.select_by_traits`: what is selected, with and without a pinned protocol, and what a selection does not
  depend on.
-/

namespace ClientGen

namespace Protocol

variable {m : Model} {service : Shape} {protocols : List Protocol} {id : ShapeId} {p : Protocol}

/-- There is a protocol for the trait. -/
def Registered (protocols : List Protocol) (id : ShapeId) : Prop := ∃ p ∈ protocols, p.id = id

/-- The protocol is the first in the list that is for the trait. -/
def IsFirst (protocols : List Protocol) (id : ShapeId) (p : Protocol) : Prop :=
  ∃ before after, protocols = before ++ p :: after ∧ p.id = id ∧ ∀ q ∈ before, q.id ≠ id

theorem find?_eq_some_iff : find? protocols id = some p ↔ IsFirst protocols id p := by
  rw [find?, List.find?_eq_some_iff_append]
  simp only [beq_iff_eq, Bool.not_eq_true', beq_eq_false_iff_ne, IsFirst]
  constructor
  · rintro ⟨hid, before, after, heq, hbefore⟩
    exact ⟨before, after, heq, hid, hbefore⟩
  · rintro ⟨before, after, heq, hid, hbefore⟩
    exact ⟨hid, before, after, heq, hbefore⟩

theorem find?_eq_none_iff : find? protocols id = none ↔ ¬ Registered protocols id := by
  simp [find?, Registered]

theorem Registered.exists_first (h : Registered protocols id) : ∃ p, IsFirst protocols id p := by
  obtain ⟨p, hp⟩ := Option.ne_none_iff_exists'.1 fun hnone => find?_eq_none_iff.1 hnone h
  exact ⟨p, find?_eq_some_iff.1 hp⟩

theorem map_find? (protocols : List Protocol) (id : ShapeId) :
    (find? protocols id).map Protocol.id = if (protocols.map Protocol.id).contains id then some id else none := by
  cases hfind : find? protocols id with
  | none =>
    have hno := find?_eq_none_iff.1 hfind
    rw [if_neg]
    · rfl
    · rw [List.contains_iff_mem, List.mem_map]
      exact hno
  | some p =>
    obtain ⟨before, after, rfl, rfl, -⟩ := find?_eq_some_iff.1 hfind
    simp

theorem isProtocol_of_registered (h : Registered protocols id) :
    isProtocol m (protocols.map Protocol.id) id = true := by
  have hmem : id ∈ protocols.map Protocol.id := List.mem_map.2 h
  simp [isProtocol, hmem]

theorem mem_declared_of_registered (h : Registered protocols id) :
    id ∈ declared m service (protocols.map Protocol.id) ↔ id ∈ service.traits.ids := by
  rw [declared, List.mem_filter, isProtocol_of_registered h]
  exact and_iff_left rfl

/-- The protocol of the first trait that has one. -/
def choose (traits : List ShapeId) (protocols : List Protocol) : Option Protocol := traits.findSome? (find? protocols)

theorem choose_filter {traits : List ShapeId} {test : ShapeId → Bool}
    (h : ∀ id, Registered protocols id → test id = true) :
    choose (traits.filter test) protocols = choose traits protocols := by
  unfold choose
  induction traits with
  | nil => rfl
  | cons id rest ih =>
    by_cases hid : Registered protocols id
    · rw [List.filter_cons_of_pos (h id hid), List.findSome?_cons, List.findSome?_cons, ih]
    · -- whether it is kept or not, the search goes on
      have hnone := find?_eq_none_iff.2 hid
      rw [List.findSome?_cons, hnone, List.filter_cons]
      split
      · rw [List.findSome?_cons, hnone, ih]
      · exact ih

/-- **Without a pinned protocol the traits choose.** -/
theorem select_none (m : Model) (service : Shape) (protocols : List Protocol) :
    select m service none protocols = .ok (choose service.traits.ids protocols) := by
  have h : choose (declared m service (protocols.map Protocol.id)) protocols = choose service.traits.ids protocols :=
    choose_filter fun id hid => isProtocol_of_registered hid
  exact congrArg Except.ok h

theorem IsFirst.registered (h : IsFirst protocols id p) : Registered protocols id := by
  obtain ⟨before, after, rfl, hid, -⟩ := h
  exact ⟨p, List.mem_append_cons_self, hid⟩

/-- **A pinned protocol is selected** if it is registered and one of the traits. -/
theorem select_pinned (m : Model) (hpin : id ∈ service.traits.ids) (hfirst : IsFirst protocols id p) :
    select m service (some id) protocols = .ok (some p) := by
  have hdeclared : id ∈ declared m service (protocols.map Protocol.id) :=
    (mem_declared_of_registered hfirst.registered).2 hpin
  rw [← List.contains_iff_mem] at hdeclared
  unfold select
  dsimp only
  rw [hdeclared, find?_eq_some_iff.2 hfirst]
  rfl

/-- **A pinned protocol that is not selected is an error of the settings.** -/
theorem select_pinned_error (m : Model) (h : ¬ (id ∈ service.traits.ids ∧ Registered protocols id)) :
    ∃ cause, select m service (some id) protocols = .error (.settings cause) := by
  -- a registered protocol counts as one, so it is not a trait; any other is not found
  by_cases hregistered : Registered protocols id
  · have hdeclared : ¬ id ∈ declared m service (protocols.map Protocol.id) := by
      rw [mem_declared_of_registered hregistered]
      exact fun hid => h ⟨hid, hregistered⟩
    rw [← List.contains_iff_mem, Bool.not_eq_true] at hdeclared
    exact ⟨_, by unfold select; dsimp only; rw [hdeclared]; rfl⟩
  · unfold select
    dsimp only
    rw [find?_eq_none_iff.2 hregistered]
    split
    · exact ⟨_, rfl⟩
    · exact ⟨_, rfl⟩

/-! ### What a selection does not depend on -/

variable {protocols' : List Protocol}

theorem map_find?_perm (h : protocols'.Perm protocols) (id : ShapeId) :
    (find? protocols' id).map Protocol.id = (find? protocols id).map Protocol.id := by
  rw [map_find?, map_find?, (h.map Protocol.id).contains_eq]

/-- **The order of registration does not matter** to the id of the protocol that the traits choose. -/
theorem choose_perm (h : protocols'.Perm protocols) (traits : List ShapeId) :
    (choose traits protocols').map Protocol.id = (choose traits protocols).map Protocol.id := by
  unfold choose
  rw [List.map_findSome?, List.map_findSome?]
  congr 1
  funext id
  exact map_find?_perm h id

theorem select_perm (h : protocols'.Perm protocols) (m : Model) (service : Shape) (pinned : Option ShapeId) :
    (select m service pinned protocols').map (Option.map Protocol.id) =
      (select m service pinned protocols).map (Option.map Protocol.id) := by
  cases pinned with
  | none =>
    rw [select_none, select_none]
    exact congrArg Except.ok (choose_perm h service.traits.ids)
  | some id =>
    have hdeclared :
        declared m service (protocols'.map Protocol.id) = declared m service (protocols.map Protocol.id) := by
      unfold declared isProtocol
      simp only [(h.map Protocol.id).contains_eq]
    have hfind := map_find?_perm h id
    unfold select
    dsimp only
    rw [hdeclared]
    split
    · rfl
    · cases hfound : find? protocols id with
      | none =>
        rw [hfound, Option.map_none, Option.map_eq_none_iff] at hfind
        rw [hfind]
      | some p =>
        rw [hfound, Option.map_some, Option.map_eq_some_iff] at hfind
        obtain ⟨p', hp', hid⟩ := hfind
        rw [hp']
        exact congrArg (fun id => Except.ok (some id)) hid

/-- **The model does not matter** to what is selected. -/
theorem select_of_select {r : Option Protocol} {pinned : Option ShapeId}
    (h : select m service pinned protocols = .ok r) (m' : Model) : select m' service pinned protocols = .ok r := by
  cases pinned with
  | none =>
    rw [select_none] at h ⊢
    exact h
  | some id =>
    by_cases hid : id ∈ service.traits.ids ∧ Registered protocols id
    · obtain ⟨p, hfirst⟩ := hid.2.exists_first
      rw [select_pinned m hid.1 hfirst] at h
      rw [select_pinned m' hid.1 hfirst, h]
    · obtain ⟨cause, hcause⟩ := select_pinned_error m hid
      rw [hcause] at h
      cases h

theorem choose_eq_some_iff {traits : List ShapeId} : choose traits protocols = some p ↔
    ∃ before id after, traits = before ++ id :: after ∧ IsFirst protocols id p ∧
      ∀ earlier ∈ before, ¬ Registered protocols earlier := by
  simp only [choose, List.findSome?_eq_some_iff, find?_eq_some_iff, find?_eq_none_iff]

theorem choose_eq_none_iff {traits : List ShapeId} : choose traits protocols = none ↔
    ∀ id ∈ traits, ¬ Registered protocols id := by
  simp only [choose, List.findSome?_eq_none_iff, find?_eq_none_iff]

/-- **Protocols are selected by the order of traits.**
1. Without a pinned protocol there is always an answer: the first protocol that is registered for the earliest trait
   that has one, and none exactly if no trait has one.
2. A pinned protocol is selected exactly if it is a trait and registered, and then the first one that is registered for
   it. Otherwise the settings are wrong, and there is never no protocol.
3. The id that is selected does not depend on the order of registration, nor do errors.
4. In the model that is pruned to the service the service is the same, and the same protocol is selected. -/
theorem select_by_traits (m : Model) (service : Shape) (protocols : List Protocol) :
    ((∃ r, select m service none protocols = .ok r) ∧
      (∀ p, select m service none protocols = .ok (some p) ↔
        ∃ before id after, service.traits.ids = before ++ id :: after ∧ IsFirst protocols id p ∧
          ∀ earlier ∈ before, ¬ Registered protocols earlier) ∧
      (select m service none protocols = .ok none ↔ ∀ id ∈ service.traits.ids, ¬ Registered protocols id)) ∧
    (∀ pin,
      (∀ p, select m service (some pin) protocols = .ok (some p) ↔
        pin ∈ service.traits.ids ∧ IsFirst protocols pin p) ∧
      ((¬ (pin ∈ service.traits.ids ∧ Registered protocols pin)) →
        ∃ cause, select m service (some pin) protocols = .error (.settings cause)) ∧
      select m service (some pin) protocols ≠ .ok none) ∧
    (∀ protocols' pinned, protocols'.Perm protocols →
      (select m service pinned protocols').map (Option.map Protocol.id) =
        (select m service pinned protocols).map (Option.map Protocol.id)) ∧
    (∀ pruned, m.prune service.id = .ok pruned → pruned.get? service.id = m.get? service.id ∧
      ∀ pinned r, select pruned service pinned protocols = .ok r ↔ select m service pinned protocols = .ok r) := by
  refine ⟨⟨⟨_, select_none m service protocols⟩, fun p => ?_, ?_⟩, fun pin => ?_, fun protocols' pinned h => ?_,
    fun pruned h => ⟨?_, fun pinned r => ⟨fun hr => select_of_select hr m, fun hr => select_of_select hr pruned⟩⟩⟩
  · rw [select_none, Except.ok.injEq, choose_eq_some_iff]
  · rw [select_none, Except.ok.injEq, choose_eq_none_iff]
  · by_cases hpin : pin ∈ service.traits.ids ∧ Registered protocols pin
    · obtain ⟨p, hfirst⟩ := hpin.2.exists_first
      have hselect := select_pinned m hpin.1 hfirst
      refine ⟨fun q => ?_, fun hno => absurd hpin hno, by rw [hselect]; simp⟩
      rw [hselect, ← find?_eq_some_iff, find?_eq_some_iff.2 hfirst, Except.ok.injEq]
      exact (and_iff_right hpin.1).symm
    · obtain ⟨cause, hcause⟩ := select_pinned_error m hpin
      refine ⟨fun q => ⟨fun hq => ?_, fun hq => ?_⟩, fun _ => ⟨cause, hcause⟩, by rw [hcause]; simp⟩
      · rw [hcause] at hq
        cases hq
      · exact absurd ⟨hq.1, hq.2.registered⟩ hpin
  · exact select_perm h m service pinned
  · exact Model.get?_prune h fun _ => .refl

/-- The trait of a protocol that a model defines itself. -/
def ownTrait : ShapeId := { ns := "ex", name := "p1" }

def restTrait : ShapeId := { ns := "aws.protocols", name := "restJson1" }

/-- A protocol that writes nothing. -/
def silent (id : ShapeId) (dependencies : List Dependency) : Protocol where
  id
  dependencies
  serializers := fun _ _ => Plan.pure ()
  deserializers := fun _ _ => Plan.pure ()

/-- A service with two protocols, of which the model defines the first. -/
def layeredService : Shape where
  id := { ns := "ex", name := "Svc" }
  kind := .service {}
  traits := ⟨[(TraitId.documentation, .str "svc"), (ownTrait, .obj []), (restTrait, .obj [])]⟩

def layeredModel : Model where
  shapes := [layeredService, {
    id := ownTrait
    kind := .struct []
    traits := ⟨[(TraitId.definition, .obj []), (TraitId.protocolDefinition, .obj [])]⟩ }]
  distinct := by decide

/-- Two protocols for the first trait, after one for the second. -/
def layeredProtocols : List Protocol :=
  [silent restTrait [], silent ownTrait [], silent ownTrait [{ package := "own", version := "" }]]

/-- The trait of the first protocol is not a shape of the pruned model, and the first protocol that is registered for it
is selected all the same; its id is also that of the selection from the reversed list. The other one can be pinned, and
a trait that is no protocol cannot. -/
theorem select_by_traits_layered : ∃ pruned, layeredModel.prune layeredService.id = .ok pruned ∧
    pruned.get? ownTrait = none ∧
    select pruned layeredService none layeredProtocols = .ok (some (silent ownTrait [])) ∧
    (select layeredModel layeredService none layeredProtocols.reverse).map (Option.map Protocol.id) =
      .ok (some ownTrait) ∧
    select layeredModel layeredService (some restTrait) layeredProtocols = .ok (some (silent restTrait [])) ∧
    ∃ cause, select layeredModel layeredService (some TraitId.documentation) layeredProtocols =
      .error (.settings cause) := by
  have hprune : layeredModel.prune layeredService.id =
      .ok { shapes := [layeredService], distinct := by decide } := by cbv
  obtain ⟨⟨-, hunpinned, -⟩, hpinned, hperm, hpruned⟩ :=
    select_by_traits layeredModel layeredService layeredProtocols
  have hdocs : ¬ Registered layeredProtocols TraitId.documentation := by
    simp only [Registered, layeredProtocols, silent, List.mem_cons, List.not_mem_nil, or_false, exists_eq_or_imp,
      exists_eq_left]
    decide
  have hown : select layeredModel layeredService none layeredProtocols = .ok (some (silent ownTrait [])) := by
    refine (hunpinned _).2 ⟨[TraitId.documentation], ownTrait, [restTrait], rfl, ?_, ?_⟩
    · exact ⟨[silent restTrait []], _, rfl, rfl, by simp [silent, ownTrait, restTrait]⟩
    · simpa using hdocs
  refine ⟨_, hprune, by decide, ((hpruned _ hprune).2 none _).2 hown, ?_, ?_, ?_⟩
  · rw [hperm _ none (List.reverse_perm _), hown]
    rfl
  · exact ((hpinned restTrait).1 _).2 ⟨by decide, [], _, rfl, rfl, by simp⟩
  · exact (hpinned TraitId.documentation).2.1 fun h => hdocs h.2

end Protocol

end ClientGen
