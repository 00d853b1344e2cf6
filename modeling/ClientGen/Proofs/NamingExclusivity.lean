import ClientGen.Proofs.LookupOutcome
import ClientGen.Proofs.SymbolHistory

/-!
# A declared name belongs to one id

* `Table.Sound.exclusive`: the names that two remembered symbols declare are different.
* `symbol_collides_again`: a lookup that ended in a collision ends in the same one ever after.
* `names_exclusive`: of two ids whose symbols declare one name at most one is ever resolved; the lookup of
  the other one ends in a collision, and it stays the same.
-/

namespace ClientGen

variable {p : Provider} {m : Model} {t : Table} {id a b : ShapeId} {sa sb : Symbol} {e : Error}

/-- Remembered symbols of ids that stand for themselves share no declared name. -/
theorem Table.Sound.exclusive (ht : t.Sound p m) (hab : a ≠ b) (ha : t.cached? a = some sa)
    (hb : t.cached? b = some sb) (hsa : Provider.standsFor? m a = none)
    (hsb : Provider.standsFor? m b = none) : sa.declarations.Disjoint sb.declarations := by
  intro name hna hnb
  have howner := ht.owned a sa ha hsa name hna
  rw [ht.owned b sb hb hsb name hnb] at howner
  exact hab (Option.some.inj howner).symm

namespace Provider

theorem Blocked.rank (h : p.Blocked m t id e) : ∃ n, Rank m id n := by
  induction h with
  | own _ hden => exact hden.rank
  | madeFrom hmade _ ih =>
    obtain ⟨n, hn⟩ := ih
    exact ⟨n + 1, .step hmade hn⟩

/-- The tables between lookups: sound, and without marks. -/
structure Idle (p : Provider) (m : Model) (t : Table) : Prop where
  sound : t.Sound p m
  unmarked : t.resolving = []

theorem Idle.unmarked_rank (ht : p.Idle m t) (n : Nat) : Unmarked m n t := by
  intro r hr
  rw [ht.unmarked] at hr
  cases hr

/-- What one more lookup does to a table: it stays idle, and keeps entries and owners. -/
theorem Idle.symbol (ht : p.Idle m t) (id : ShapeId) :
    p.Idle m ((p.symbol m id).run t).2 ∧ t.Grows ((p.symbol m id).run t).2 ∧
      t.KeepsOwners ((p.symbol m id).run t).2 := by
  obtain ⟨hsound, hgrows⟩ := symbol_keeps ht.sound id
  have hmarks := (lookup_marks (p := p) (m := m) (depth m) id []).of_run ht.unmarked
  have howners := ((lookup_kept (keepsOwners_kept t) (depth m) id trivial).mono (fun _ h => h)
    (fun _ _ h => h) (fun _ _ h => h.1)).of_run ⟨ht.sound, fun _ _ h => h⟩
  exact ⟨⟨hsound, hmarks⟩, hgrows, howners⟩

theorem Idle.symbols (ids : List ShapeId) : ∀ {t : Table}, p.Idle m t →
    p.Idle m (ids.foldl (fun t id => ((p.symbol m id).run t).2) t) ∧
      t.Grows (ids.foldl (fun t id => ((p.symbol m id).run t).2) t) ∧
      t.KeepsOwners (ids.foldl (fun t id => ((p.symbol m id).run t).2) t) := by
  induction ids with
  | nil => exact fun ht => ⟨ht, .refl _, fun _ _ h => h⟩
  | cons id ids ih =>
    intro t ht
    obtain ⟨hidle, hgrows, howners⟩ := ht.symbol id
    obtain ⟨hidle', hgrows', howners'⟩ := ih hidle
    exact ⟨hidle', hgrows.trans hgrows', fun name x h => howners' name x (howners name x h)⟩

theorem tableAfter_idle (p : Provider) (m : Model) (ids : List ShapeId) : p.Idle m (p.tableAfter m ids) :=
  (Idle.symbols ids ⟨Table.sound_empty p m, rfl⟩).1

theorem Idle.blocked (ht : p.Idle m t) (h : ((p.symbol m id).run t).1 = .error e)
    (he : e.isCollision = true) : p.Blocked m ((p.symbol m id).run t).2 id e :=
  ((lookup_kept (keepsOwners_kept t) (depth m) id trivial).of_run_error ⟨ht.sound, fun _ _ h => h⟩ h).2 he

theorem Idle.symbol_of_blocked (ht : p.Idle m t) (h : p.Blocked m t id e) :
    ((p.symbol m id).run t).1 = .error e := by
  obtain ⟨n, hn⟩ := h.rank
  have hl := lookup_of_blocked (p := p) (e := e) hn hn.lt_depth
  have hpre : (t.Sound p m ∧ Unmarked m n t) ∧ p.Blocked m t id e := ⟨⟨ht.sound, ht.unmarked_rank n⟩, h⟩
  cases hr : ((p.symbol m id).run t).1 with
  | ok s => exact (hl.of_run_ok hpre hr).elim
  | error e' => rw [hl.of_run_error hpre hr]

/-- **A lookup that ended in a collision ends in it ever after**, whatever is looked up in between. -/
theorem symbol_collides_again {before : List ShapeId}
    (h : ((p.symbol m id).run (p.tableAfter m before)).1 = .error e) (he : e.isCollision = true)
    (later : List ShapeId) : ((p.symbol m id).run (p.tableAfter m (before ++ id :: later))).1 = .error e := by
  have hidle := tableAfter_idle p m before
  have hblocked := hidle.blocked h he
  obtain ⟨hlater, hgrows, howners⟩ := (hidle.symbol id).1.symbols later
  unfold tableAfter at *
  rw [List.foldl_append, List.foldl_cons]
  exact hlater.symbol_of_blocked (hblocked.mono hgrows howners)

/-- **Of two ids that declare one name the second collides**: once the first is remembered, the lookup of
the second ends in a collision. -/
theorem Idle.symbol_collides (ht : p.Idle m t) (hab : a ≠ b) (ha : t.cached? a = some sa)
    (hsa : standsFor? m a = none) (hsb : standsFor? m b = none) (hb : p.Denotes m b sb)
    {name : String × String} (hna : name ∈ sa.declarations) (hnb : name ∈ sb.declarations) :
    ∃ e, ((p.symbol m b).run t).1 = .error e ∧ e.isCollision = true := by
  cases hr : ((p.symbol m b).run t).1 with
  | ok s =>
    obtain ⟨hden, hc⟩ := symbol_ok ht.sound hr
    obtain ⟨hidle, hgrows, -⟩ := ht.symbol b
    rw [hden.unique hb] at hc
    exact (hidle.sound.exclusive hab (hgrows a sa ha) hc hsa hsb hna hnb).elim
  | error e =>
    obtain ⟨n, hn⟩ := hb.rank
    have hl := lookup_of_denotes hb hn hn.lt_depth
    exact ⟨e, rfl, hl.of_run_error ⟨ht.sound, ht.unmarked_rank n⟩ hr⟩

/-- **A declared name belongs to one id.** After any lookups, in any order and with or without success:
1. remembered symbols of different ids that stand for themselves declare different names;
2. if the symbols of two such ids declare one name and the lookup of one has succeeded, then the lookup of
   the other ends in a collision;
3. a lookup that has ended in a collision ends in the same collision ever after.
The provider may decorate symbols by any function of the id and the symbol. -/
theorem names_exclusive (p : Provider) (m : Model) (before : List ShapeId) :
    (∀ a b sa sb, a ≠ b → standsFor? m a = none → standsFor? m b = none →
      (p.tableAfter m before).cached? a = some sa → (p.tableAfter m before).cached? b = some sb →
      sa.declarations.Disjoint sb.declarations) ∧
    (∀ a b sa sb name, a ≠ b → standsFor? m a = none → standsFor? m b = none → p.Denotes m b sb →
      name ∈ sa.declarations → name ∈ sb.declarations →
      ((p.symbol m a).run (p.tableAfter m before)).1 = .ok sa →
      ∀ between, ∃ first second ns label,
        ((p.symbol m b).run (p.tableAfter m (before ++ a :: between))).1 =
          .error (.namingCollision first second ns label)) ∧
    (∀ id first second ns label,
      ((p.symbol m id).run (p.tableAfter m before)).1 = .error (.namingCollision first second ns label) →
      ∀ later, ((p.symbol m id).run (p.tableAfter m (before ++ id :: later))).1 =
        .error (.namingCollision first second ns label)) := by
  have hidle := tableAfter_idle p m before
  refine ⟨?_, ?_, ?_⟩
  · intro a b sa sb hab hsa hsb ha hb
    exact hidle.sound.exclusive hab ha hb hsa hsb
  · intro a b sa sb name hab hsa hsb hb hna hnb ha between
    obtain ⟨-, hc⟩ := symbol_ok hidle.sound ha
    obtain ⟨hlater, hgrows, -⟩ := (hidle.symbol a).1.symbols between
    obtain ⟨e, he, hcol⟩ := hlater.symbol_collides hab (hgrows a sa hc) hsa hsb hb hna hnb
    unfold tableAfter at *
    rw [List.foldl_append, List.foldl_cons, he]
    cases e with
    | namingCollision first second ns name => exact ⟨first, second, ns, name, rfl⟩
    | _ => cases hcol
  · intro id first second ns name h later
    exact symbol_collides_again h rfl later

/-- An id of `clashModel`. -/
def clashId (name : String) : ShapeId := { ns := "a", name }

/-- A union `Form`, a list `Forms` of it, and a structure with the name of its unknown variant. -/
def clashModel : Model where
  shapes := [
    { id := clashId "Form"
      kind := .union [{ id := (clashId "Form").withMember "x", target := .prelude "String" }] },
    { id := clashId "Forms", kind := .list { id := (clashId "Forms").withMember "e", target := clashId "Form" } },
    { id := clashId "FormUnknown", kind := .struct [] }]
  distinct := by decide

def clashProvider : Provider := { package := "p" }

/-- The answer for an id of `clashModel` after other lookups. -/
def clashAnswer (before : List ShapeId) (id : ShapeId) : Except Error Symbol :=
  ((clashProvider.symbol clashModel id).run (clashProvider.tableAfter clashModel before)).1

def clashError : Error := .namingCollision (clashId "FormUnknown") (clashId "Form") "p.models" "FormUnknown"

/-- The union registers its class and its reader before it comes to the structure's name. The list made
from it then fails, again and again, with the union's collision; the variant of the union is no party. -/
theorem names_exclusive_clash :
    (Naming.variant "p" (clashId "Form") "x").declarations.Disjoint
      (Naming.valueClass "p" (clashId "FormUnknown")).declarations ∧
    (∃ first second ns label, clashAnswer [clashId "FormUnknown", clashId "X"] (clashId "Form") =
      .error (.namingCollision first second ns label)) ∧
    clashAnswer [clashId "FormUnknown"] (clashId "Forms") = .error clashError ∧
    clashAnswer [clashId "FormUnknown", clashId "Forms", clashId "Form", clashId "X"] (clashId "Forms") =
      .error clashError := by
  have hunion : clashProvider.Denotes clashModel (clashId "Form") (Naming.unionType "p" (clashId "Form")) :=
    .plain rfl rfl rfl rfl
  have hfails : clashAnswer [clashId "FormUnknown"] (clashId "Forms") = .error clashError := rfl
  refine ⟨?_, ?_, hfails, ?_⟩
  · have h := names_exclusive clashProvider clashModel [clashId "FormUnknown", (clashId "Form").withMember "x"]
    exact h.1 ((clashId "Form").withMember "x") (clashId "FormUnknown") _ _ (by decide) rfl rfl rfl rfl
  · have h := names_exclusive clashProvider clashModel []
    exact h.2.1 (clashId "FormUnknown") (clashId "Form") _ _ ("p.models", "FormUnknown") (by decide) rfl rfl
      hunion (by decide) (by decide) rfl [clashId "X"]
  · have h := names_exclusive clashProvider clashModel [clashId "FormUnknown"]
    exact h.2.2 _ _ _ _ _ hfails [clashId "Form", clashId "X"]

end Provider

end ClientGen
