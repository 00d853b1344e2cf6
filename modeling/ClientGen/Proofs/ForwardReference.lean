import ClientGen.Proofs.ElementChain
import ClientGen.Proofs.EmissionOrder
import Mathlib

/-!
# Forward references

A mention of a target is written deferred, as a quoted forward reference, if a recursive shape is the
target or is reached from it by going from collections to their elements (`isDeferred_iff`). What is
mentioned otherwise has been declared: the target and all that its collections hold come earlier in
the emission order (`precedes_of_not_deferred`).
-/

namespace ClientGen

open Relation

variable {l : List ShapeId} {a b c : ShapeId}

theorem Precedes.append_right (h : Precedes l a b) (l' : List ShapeId) : Precedes (l ++ l') a b := by
  obtain ⟨front, back, rfl, ha⟩ := h
  exact ⟨front, back ++ l', by simp, ha⟩

theorem precedes_append {l' : List ShapeId} (ha : a ∈ l) (hb : b ∈ l') : Precedes (l ++ l') a b := by
  obtain ⟨front, back, rfl⟩ := List.append_of_mem hb
  exact ⟨l ++ front, back, by simp, List.mem_append_left _ ha⟩

theorem Precedes.trans (hnd : l.Nodup) (hab : Precedes l a b) (hbc : Precedes l b c) :
    Precedes l a c := by
  obtain ⟨front, back, rfl, hb⟩ := hbc
  obtain ⟨front', mid, rfl⟩ := List.append_of_mem hb
  have heq : front' ++ b :: mid ++ c :: back = front' ++ b :: (mid ++ c :: back) := by simp
  rw [heq] at hnd hab
  have ha : a ∈ front' := hab.mem_front hnd
  exact ⟨front' ++ b :: mid, back, rfl, List.mem_append_left _ ha⟩

namespace Context

variable {cx : Context}

/-- **Deferred targets** are those from which a recursive shape is reached by element steps. -/
theorem isDeferred_iff (t : ShapeId) :
    cx.isDeferred t = true ↔ ∃ r ∈ cx.order.recursive, ReflTransGen (ElementStep cx.model) t r := by
  unfold isDeferred
  rw [List.any_eq_true]
  simp only [Model.mem_elementChain_iff (Nat.lt_add_of_pos_right (Nat.succ_pos 1)),
    EmissionOrder.isRecursive, List.contains_iff_mem]
  exact exists_congr fun _ => and_comm

/-- A reference to a shape that is not recursive is to one that comes earlier. -/
theorem precedes_of_refers {nodes : List ShapeId} (hv : cx.order.Valid cx.model nodes)
    (hab : cx.model.RefersWithin nodes a b) (hb : b ∉ cx.order.recursive) : Precedes cx.order.all b a := by
  have hbo : b ∈ cx.order.ordered := by
    have := (hv.mem_all b).2 hab.2.1
    exact (List.mem_append.1 this).resolve_right hb
  rcases List.mem_append.1 ((hv.mem_all a).2 hab.1) with ha | ha
  · exact (hv.targets_first a ha b hab hb).append_right _
  · exact precedes_append hbo ha

/-- What a mention that is not deferred leads to within the emitted shapes comes earlier. -/
theorem precedes_of_not_deferred {nodes : List ShapeId} (hv : cx.order.Valid cx.model nodes)
    {s t u : ShapeId} (hst : cx.model.RefersWithin nodes s t) (ht : cx.isDeferred t = false)
    (htu : ReflTransGen (fun a b => ElementStep cx.model a b ∧ b ∈ nodes) t u) :
    u ∈ nodes ∧ u ∉ cx.order.recursive ∧ Precedes cx.order.all u s := by
  have hplain : ∀ v, ReflTransGen (ElementStep cx.model) t v → v ∉ cx.order.recursive := by
    intro v hv hr
    rw [(isDeferred_iff t).2 ⟨v, hr, hv⟩] at ht
    cases ht
  have hlift : ReflTransGen (ElementStep cx.model) t u := ReflTransGen.mono (fun _ _ h => h.1) _ _ htu
  -- the invariant of the chain: where it stands precedes `s`
  induction htu with
  | refl => exact ⟨hst.2.1, hplain t .refl, precedes_of_refers hv hst (hplain t .refl)⟩
  | tail hta hab ih =>
    obtain ⟨ha, -, hpa⟩ := ih (ReflTransGen.mono (fun _ _ h => h.1) _ _ hta)
    obtain ⟨shape, hs, hb⟩ := hab.1.mem_references
    have hbr := hplain _ hlift
    exact ⟨hab.2, hbr, (precedes_of_refers hv ⟨ha, hab.2, shape, hs, hb⟩ hbr).trans hv.nodup hpa⟩

/-- An id of the model `forest`. -/
def forestId (name : String) : ShapeId := { ns := "a", name }

/-- A root `R` with a list `L` of trees `T`, which hold such lists, and a list `M` of plain values `N`. -/
def forest : Model where
  shapes := [
    { id := forestId "R", kind := .struct [
        { id := (forestId "R").withMember "t", target := forestId "L" },
        { id := (forestId "R").withMember "m", target := forestId "M" }] },
    { id := forestId "T", kind := .struct [
        { id := (forestId "T").withMember "c", target := forestId "L" }] },
    { id := forestId "L", kind := .list { id := (forestId "L").withMember "e", target := forestId "T" } },
    { id := forestId "M", kind := .list { id := (forestId "M").withMember "e", target := forestId "N" } },
    { id := forestId "N", kind := .struct [] }]
  distinct := by decide

def forestContext : Context where
  model := forest
  settings := { service := forestId "R", module := "p", outputDir := ⟨"out"⟩ }
  provider := { package := "p" }
  order := ⟨[forestId "N", forestId "M", forestId "R"], [forestId "L", forestId "T"]⟩
  service := { id := forestId "R", kind := .struct [] }

end Context

end ClientGen
