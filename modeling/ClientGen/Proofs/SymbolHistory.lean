import ClientGen.Proofs.SymbolTable

/-!
# Symbols do not depend on the history of lookups

The symbol table answers from what it remembers, and a lookup that is nested in another one or that
fails leaves entries behind.

* `symbol_of_cached`: a symbol that is remembered is the answer.
* `symbol_history_independent`: the answer for an id is the same after any two sequences of lookups, and
  stays the same from the first success on.
-/

namespace ClientGen.Provider

variable {p : Provider} {m : Model} {id : ShapeId}

/-- The table after lookups in turn, from an empty one. -/
def tableAfter (p : Provider) (m : Model) (ids : List ShapeId) : Table :=
  ids.foldl (fun t id => ((p.symbol m id).run t).2) {}

theorem symbol_of_cached {t : Table} {s : Symbol} (h : t.cached? id = some s) :
    ((p.symbol m id).run t).1 = .ok s := by
  have hl : Triple (fun t' => t' = t) (p.symbol m id) (fun r _ => r = s) (fun _ _ => False) := by
    unfold symbol depth lookup
    apply Triple.get_bind
    rintro t' rfl
    rw [h]
    exact Triple.pure s |>.pre fun _ _ => rfl
  cases hr : ((p.symbol m id).run t).1 with
  | ok r => rw [hl.of_run_ok rfl hr]
  | error e => exact (hl.of_run_error rfl hr).elim

theorem foldl_symbol_keeps (ids : List ShapeId) : ∀ {t : Table}, t.Sound p m →
    (ids.foldl (fun t id => ((p.symbol m id).run t).2) t).Sound p m ∧
      t.Grows (ids.foldl (fun t id => ((p.symbol m id).run t).2) t) := by
  induction ids with
  | nil => exact fun ht => ⟨ht, .refl _⟩
  | cons id ids ih =>
    intro t ht
    obtain ⟨hf, hg⟩ := symbol_keeps ht id
    obtain ⟨hf', hg'⟩ := ih hf
    exact ⟨hf', hg.trans hg'⟩

theorem tableAfter_sound (p : Provider) (m : Model) (ids : List ShapeId) :
    (p.tableAfter m ids).Sound p m :=
  (foldl_symbol_keeps ids (Table.sound_empty p m)).1

/-- **Symbols do not depend on the history.** Whatever was looked up before, with or without success,
two lookups of an id that succeed give the same symbol; and after a lookup has succeeded, every later
lookup of the id gives that symbol, whatever is looked up in between. The provider may decorate symbols
by any function of the id and the symbol. -/
theorem symbol_history_independent (p : Provider) (m : Model) (id : ShapeId) (s : Symbol)
    (before : List ShapeId) (h : ((p.symbol m id).run (p.tableAfter m before)).1 = .ok s) :
    (∀ before' s', ((p.symbol m id).run (p.tableAfter m before')).1 = .ok s' → s' = s) ∧
      ∀ between, ((p.symbol m id).run (p.tableAfter m (before ++ id :: between))).1 = .ok s := by
  obtain ⟨hden, hc⟩ := symbol_ok (tableAfter_sound p m before) h
  constructor
  · intro before' s' h'
    exact (symbol_ok (tableAfter_sound p m before') h').1.unique hden
  · intro between
    apply symbol_of_cached
    unfold tableAfter at *
    rw [List.foldl_append, List.foldl_cons]
    have hf := (symbol_keeps (tableAfter_sound p m before) id).1
    exact (foldl_symbol_keeps between hf).2 id s hc

/-- An id of `pairModel`. -/
def pairId (name : String) : ShapeId := { ns := "a", name }

/-- A list `L` of structures `T`. -/
def pairModel : Model where
  shapes := [
    { id := pairId "L", kind := .list { id := (pairId "L").withMember "e", target := pairId "T" } },
    { id := pairId "T", kind := .struct [] }]
  distinct := by decide

/-- Imports every symbol under the name `N`. -/
def pairProvider : Provider := { package := "p", decorate := fun _ s => { s with localName := some "N" } }

/-- What the provider makes of `L`. -/
def pairSymbol : Symbol where
  name := "list[T]"
  ns := ""
  localName := some "N"
  properties := [
    (Symbol.deserializerRole, Naming.modelClass "p" "_deserialize_l"),
    (Symbol.schemaRole, Naming.schema "p" (pairId "L")),
    (Symbol.serializerRole, Naming.modelClass "p" "_serialize_l")]
  references := [{ Naming.valueClass "p" (pairId "T") with localName := some "N" }]

/-- The lookup of `L` after one that failed, and after more lookups. -/
theorem symbol_history_pair :
    ((pairProvider.symbol pairModel (pairId "L")).run
        (pairProvider.tableAfter pairModel [pairId "X"])).1 = .ok pairSymbol ∧
      ((pairProvider.symbol pairModel (pairId "L")).run
        (pairProvider.tableAfter pairModel [pairId "X", pairId "L", pairId "X", pairId "T"])).1 =
          .ok pairSymbol ∧
      ∀ s, ((pairProvider.symbol pairModel (pairId "L")).run
        (pairProvider.tableAfter pairModel [pairId "T"])).1 = .ok s → s = pairSymbol := by
  have h : ((pairProvider.symbol pairModel (pairId "L")).run
      (pairProvider.tableAfter pairModel [pairId "X"])).1 = .ok pairSymbol := rfl
  obtain ⟨hsame, hlater⟩ := symbol_history_independent _ _ _ _ _ h
  exact ⟨h, hlater [pairId "X", pairId "T"], fun s => hsame [pairId "T"] s⟩

end ClientGen.Provider
