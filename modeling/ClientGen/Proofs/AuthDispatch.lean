import ClientGen.Package.AuthFactories
import ClientGen.Package.AuthResolver
import ClientGen.Proofs.PrunedAuth

/-!
# The resolver class chooses as the resolution says

A resolution goes by the ids of operations. The resolver class that is written for it has only the bare name
of an operation to go by, in a `match` with a case for each override.

* `AuthResolution.of_ok`: what a resolution holds. The overrides are those of the operations that list
  schemes, and no other operation has the name of one of these.
* `Package.authSchemes_outcome`: the plan of the auth module fails only where the function of a scheme does.
* `Package.resolver_dispatches`: they are those that the resolution has for the operation.
-/

namespace ClientGen

variable {m : Model} {s : Shape}

/-! ### What a resolution holds -/

namespace Auth

theorem serviceSchemes_ok {ids : List ShapeId} (h : serviceSchemes m s = .ok ids) :
    (∀ id ∈ ids, id ∈ applied m s) ∧
      (listed? s = .ok (some ids) ∨ listed? s = .ok none ∧ ids = applied m s) := by
  unfold serviceSchemes at h
  obtain ⟨listed, hlisted, h⟩ := bind_ok_iff.1 h
  cases listed with
  | none =>
    cases h
    exact ⟨fun _ hid => hid, .inr ⟨hlisted, rfl⟩⟩
  | some names =>
    dsimp only at h
    split at h
    · cases h
    · rename_i hfind
      cases h
      refine ⟨fun id hid => ?_, .inl hlisted⟩
      have := List.find?_eq_none.1 hfind id hid
      simpa using this

/-- The schemes that an operation lists, of those that the service applies and that are registered. -/
def own? (m : Model) (s : Shape) (registered : List ShapeId) (operation : Shape) : Option (List ShapeId) :=
  match listed? operation with
  | .ok (some ids) => some (ids.filter fun id => (applied m s).contains id && registered.contains id)
  | _ => none

end Auth

namespace AuthResolution

open Auth

variable {operations : List Shape} {registered : List ShapeId} {r : AuthResolution}

theorem override?_ok {operation : Shape} {own : Option (List ShapeId)}
    (h : override? m s operations operation = .ok own) :
    own.map (fun ids => ids.filter registered.contains) = own? m s registered operation ∧
    (own? m s registered operation ≠ none →
      ∀ o ∈ operations, o.id.name = operation.id.name → o.id = operation.id) := by
  unfold override? operationSchemes? at h
  obtain ⟨schemes, hschemes, h⟩ := bind_ok_iff.1 h
  obtain ⟨listed, hlisted, hschemes⟩ := bind_ok_iff.1 hschemes
  unfold own?
  rw [hlisted]
  cases listed with
  | none =>
    cases hschemes
    cases h
    exact ⟨rfl, fun hne => absurd rfl hne⟩
  | some ids =>
    cases hschemes
    dsimp only at h
    split at h
    · cases h
    · rename_i hfind
      cases h
      refine ⟨?_, fun _ o ho hname => ?_⟩
      · simp [List.filter_filter, Bool.and_comm]
      · have := List.find?_eq_none.1 hfind o ho
        simpa [hname] using this

/-- The operations that list schemes, each with what is left of its list. -/
def ownEntries (m : Model) (s : Shape) (registered : List ShapeId) (operations : List Shape) :
    List (ShapeId × List ShapeId) :=
  operations.filterMap fun o => (own? m s registered o).map fun ids => (o.id, ids)

/-- A loop that enters the schemes of each operation, among operations with different ids. -/
theorem foldlM_perm
    {step : Dictionary ShapeId (List ShapeId) → Shape → Except Error (Dictionary ShapeId (List ShapeId))}
    {rest : List Shape} (hstep : ∀ o ∈ rest, ∀ acc acc', step acc o = .ok acc' →
      acc' = (own? m s registered o).elim acc fun ids => Dictionary.insert o.id ids acc) :
    ∀ acc acc' : Dictionary ShapeId (List ShapeId), (acc.map (·.1) ++ rest.map Shape.id).Nodup →
      rest.foldlM step acc = .ok acc' → acc'.Perm (acc ++ ownEntries m s registered rest) := by
  induction rest with
  | nil =>
    intro acc acc' _ h
    cases h
    simp [ownEntries]
  | cons o rest ih =>
    intro acc acc' hnd h
    rw [List.foldlM_cons] at h
    obtain ⟨next, hnext, h⟩ := bind_ok_iff.1 h
    have hnext := hstep o List.mem_cons_self acc next hnext
    have ih := @ih fun o ho => hstep o (List.mem_cons_of_mem _ ho)
    cases hown : own? m s registered o with
    | none =>
      rw [hown, Option.elim_none] at hnext
      rw [hnext] at h
      have hsub : (acc.map (·.1) ++ rest.map Shape.id).Nodup :=
        hnd.sublist ((List.sublist_cons_self _ _).append_left _)
      simpa [ownEntries, hown] using ih _ _ hsub h
    | some ids =>
      rw [hown, Option.elim_some] at hnext
      rw [hnext] at h
      -- the operation's id is new, so that its entry joins the others
      have hfresh : ∀ e ∈ acc, compare o.id e.1 ≠ .eq := by
        intro e he hc
        have heq : e.1 = o.id := (Std.LawfulEqOrd.eq_of_compare hc).symm
        exact (List.nodup_append.1 hnd).2.2 _ (List.mem_map_of_mem he) _ List.mem_cons_self heq
      have hperm : (Dictionary.insert o.id ids acc).Perm ((o.id, ids) :: acc) := Dictionary.insert_perm hfresh
      have hkeys : (((Dictionary.insert o.id ids acc).map (·.1)) ++ rest.map Shape.id).Nodup := by
        refine (((hperm.map (·.1)).append_right _).nodup_iff).2 ?_
        exact (List.perm_middle.nodup_iff).1 hnd
      refine (ih _ _ hkeys h).trans ((hperm.append_right _).trans ?_)
      simpa [ownEntries, hown] using List.perm_middle.symm

theorem exists_of_foldlM {α β : Type} {step : β → α → Except Error β} {as : List α} :
    ∀ {b b' : β}, as.foldlM step b = .ok b' → ∀ a ∈ as, ∃ c c', step c a = .ok c' := by
  induction as with
  | nil => exact fun _ a ha => by cases ha
  | cons x as ih =>
    intro b b' h a ha
    rw [List.foldlM_cons] at h
    obtain ⟨c, hc, h⟩ := bind_ok_iff.1 h
    rcases List.mem_cons.1 ha with rfl | ha
    · exact ⟨b, c, hc⟩
    · exact ih h a ha

/-- **What a resolution holds**: the registered part of the service's schemes, and an override for each
operation that lists schemes. Such an operation is the only one of its name. -/
theorem of_ok (h : of m s operations registered = .ok r) :
    (∃ ids, serviceSchemes m s = .ok ids ∧ r.service = ids.filter registered.contains) ∧
    ((operations.map Shape.id).Nodup → r.overrides.Perm (ownEntries m s registered operations)) ∧
    ∀ o ∈ operations, own? m s registered o ≠ none → ∀ o' ∈ operations, o'.id.name = o.id.name → o'.id = o.id := by
  unfold of at h
  obtain ⟨ids, hids, h⟩ := bind_ok_iff.1 h
  obtain ⟨overrides, hoverrides, h⟩ := bind_ok_iff.1 h
  cases h
  refine ⟨⟨ids, hids, rfl⟩, fun hdistinct => ?_, fun o ho => ?_⟩
  · refine foldlM_perm (fun o _ acc acc' hstep => ?_) [] _ hdistinct hoverrides
    obtain ⟨own, hown, hstep⟩ := bind_ok_iff.1 hstep
    rw [← (override?_ok hown).1]
    cases own <;> cases hstep <;> rfl
  · obtain ⟨acc, acc', hstep⟩ := exists_of_foldlM hoverrides o ho
    obtain ⟨own, hown, -⟩ := bind_ok_iff.1 hstep
    exact (override?_ok hown).2

/-- Only which schemes are registered counts. -/
theorem of_registered {registered' : List ShapeId} (h : ∀ id, id ∈ registered' ↔ id ∈ registered) :
    of m s operations registered' = of m s operations registered := by
  have hcontains : registered'.contains = registered.contains := by
    funext id
    rw [Bool.eq_iff_iff, List.contains_iff_mem, List.contains_iff_mem, h]
  unfold of
  rw [hcontains]

theorem mem_ownEntries {e : ShapeId × List ShapeId} (h : e ∈ ownEntries m s registered operations) :
    ∃ o ∈ operations, own? m s registered o = some e.2 ∧ o.id = e.1 := by
  obtain ⟨o, ho, he⟩ := List.mem_filterMap.1 h
  obtain ⟨ids, hids, rfl⟩ := Option.map_eq_some_iff.1 he
  exact ⟨o, ho, hids, rfl⟩

theorem mem_own {operation : Shape} {ids : List ShapeId} (h : own? m s registered operation = some ids) {id : ShapeId}
    (hid : id ∈ ids) : id ∈ applied m s ∧ id ∈ registered := by
  unfold own? at h
  split at h
  · cases h
    simpa using (List.mem_filter.1 hid).2
  · cases h

theorem mem_all (r : AuthResolution) (id : ShapeId) :
    id ∈ r.all ↔ id ∈ r.service ∨ ∃ e ∈ r.overrides, id ∈ e.2 := by
  unfold all
  rw [List.mem_eraseDups, List.mem_append, List.mem_flatMap]

theorem eraseDups_nodup (ids : List ShapeId) : ids.eraseDups.Nodup := by
  cases ids with
  | nil => simp
  | cons id ids =>
    rw [List.eraseDups_cons, List.nodup_cons]
    exact ⟨by simp [List.mem_eraseDups], eraseDups_nodup _⟩
termination_by ids.length
decreasing_by exact Nat.lt_succ_of_le (List.length_filter_le _ _)

theorem mem_all_of_forOperation {operation id : ShapeId} (h : id ∈ r.forOperation operation) : id ∈ r.all := by
  rw [mem_all]
  unfold forOperation at h
  cases hget : Dictionary.get? operation r.overrides with
  | none =>
    rw [hget] at h
    exact .inl h
  | some ids =>
    rw [hget] at h
    obtain ⟨e, he, rfl⟩ := Option.map_eq_some_iff.1 hget
    exact .inr ⟨e, List.mem_of_find?_eq_some he, h⟩

/-- What a resolution selects from the lists of schemes. -/
structure Selection (m : Model) (s : Shape) (operations : List Shape) (registered : List ShapeId)
    (r : AuthResolution) : Prop where
  /-- From the list on the service, or else from all that it applies, what is registered. -/
  service : ∃ ids, (listed? s = .ok (some ids) ∨ listed? s = .ok none ∧ ids = applied m s) ∧
    r.service = ids.filter registered.contains
  ascending : (applied m s).Pairwise fun a b => (compare a b).isLE = true
  /-- From the list on each operation that has one, what is applied and registered. -/
  overrides : r.overrides.Perm (ownEntries m s registered operations)
  available : ∀ id ∈ r.all, id ∈ applied m s ∧ id ∈ registered
  all_nodup : r.all.Nodup
  mem_all : ∀ id, id ∈ r.all ↔ id ∈ r.service ∨ ∃ e ∈ r.overrides, id ∈ e.2
  /-- The order of registration and repetitions in it do not matter. -/
  unordered : ∀ registered', (∀ id, id ∈ registered' ↔ id ∈ registered) → of m s operations registered' = .ok r

theorem selection_of_ok (hdistinct : (operations.map Shape.id).Nodup) (h : of m s operations registered = .ok r) :
    Selection m s operations registered r := by
  obtain ⟨⟨ids, hids, hservice⟩, hoverrides, -⟩ := of_ok h
  obtain ⟨happlied, hlisted⟩ := serviceSchemes_ok hids
  refine ⟨⟨ids, hlisted, hservice⟩, Model.sortIds_sorted _, hoverrides hdistinct, ?_, eraseDups_nodup _, mem_all r,
    fun registered' hsame => (of_registered hsame).trans h⟩
  intro id hid
  rcases (mem_all r id).1 hid with hid | ⟨e, he, hid⟩
  · rw [hservice] at hid
    obtain ⟨hmem, hregistered⟩ := List.mem_filter.1 hid
    exact ⟨happlied id hmem, List.contains_iff_mem.1 hregistered⟩
  · obtain ⟨o, -, hown, -⟩ := mem_ownEntries ((hoverrides hdistinct).mem_iff.1 he)
    exact mem_own hown hid

/-- **The name of an operation leads to its own override**, if it has one, and else to none. -/
theorem find?_name (hdistinct : (operations.map Shape.id).Nodup) (h : of m s operations registered = .ok r)
    {operation : Shape} (ho : operation ∈ operations) :
    (r.overrides.find? fun e => e.1.name == operation.id.name).map (·.2) = Dictionary.get? operation.id r.overrides := by
  obtain ⟨-, hoverrides, honly⟩ := of_ok h
  have hname : ∀ e ∈ r.overrides,
      (e.1.name == operation.id.name) = (compare operation.id e.1 == .eq) := by
    intro e he
    obtain ⟨o, hmem, hown, hid⟩ := mem_ownEntries ((hoverrides hdistinct).mem_iff.1 he)
    rw [Bool.eq_iff_iff, beq_iff_eq, beq_iff_eq, Std.LawfulEqOrd.compare_eq_iff_eq]
    constructor
    · intro hsame
      rw [← hid] at hsame ⊢
      exact honly o hmem (by simp [hown]) operation ho hsame.symm
    · intro hsame
      rw [hsame]
  unfold Dictionary.get?
  congr 1
  rw [← List.head?_filter, ← List.head?_filter, List.filter_congr hname]

end AuthResolution

/-! ### Plans that only emit -/

/-- The plan succeeds with `a`, emits `out` and looks nothing up. -/
def Plan.Emits {ω α : Type} (p : Plan ω α) (out : List ω) (a : α) : Prop := ∀ t, p t = ⟨out, .ok a, t⟩

namespace Plan

variable {t t' : Table} {e : Error} {body : Plan Step Unit} {out : Script}

variable {ω α β : Type}

theorem bind_of_ok {x : Plan ω α} {out : List ω} {a : α} (hx : x t = ⟨out, .ok a, t'⟩) (f : α → Plan ω β) :
    (x >>= f) t = ⟨out ++ (f a t').out, (f a t').result, (f a t').names⟩ := by
  simp only [Bind.bind, Plan.bind, hx]

theorem bind_of_error {x : Plan ω α} {out : List ω} (hx : x t = ⟨out, .error e, t'⟩) (f : α → Plan ω β) :
    (x >>= f) t = ⟨out, .error e, t'⟩ := by
  simp only [Bind.bind, Plan.bind, hx]

theorem within_of_ok (h : body t = ⟨out, .ok (), t'⟩) (wrap : Script → ω) :
    Plan.within body wrap t = ⟨[wrap out], .ok (), t'⟩ := by
  simp only [Plan.within, h]

theorem within_of_error (h : body t = ⟨out, .error e, t'⟩) (wrap : Script → ω) :
    Plan.within body wrap t = ⟨[wrap (out ++ [.fail e])], .error e, t'⟩ := by
  simp only [Plan.within, h]

theorem bind_error {x : Plan ω α} {f : α → Plan ω β} {t : Table} (h : ((x >>= f) t).result = .error e) :
    (x t).result = .error e ∨ ∃ a, (x t).result = .ok a ∧ (f a (x t).names).result = .error e := by
  simp only [Bind.bind, Plan.bind] at h
  split at h
  · rename_i hx
    cases h
    exact .inl hx
  · rename_i a hx
    exact .inr ⟨a, hx, h⟩

theorem emits_pure (a : α) : Emits (pure a : Plan ω α) [] a := fun _ => rfl

theorem emits_line (template : String) (args : List Arg) :
    Emits (line template args) [.line template args] () := fun _ => rfl

theorem emits_lift {r : Except Error α} {a : α} (h : r = .ok a) : Emits (liftM r : Plan ω α) [] a := by
  subst h
  exact fun _ => rfl

theorem Emits.bind {x : Plan ω α} {f : α → Plan ω β} {out out' : List ω} {a : α} {b : β} (hx : Emits x out a)
    (hf : Emits (f a) out' b) : Emits (x >>= f) (out ++ out') b := by
  intro t
  rw [bind_of_ok (hx t), hf t]

theorem Emits.seq {x : Plan ω Unit} {y : Plan ω β} {out out' : List ω} {b : β} (hx : Emits x out ())
    (hy : Emits y out' b) : Emits (x >>= fun _ => y) (out ++ out') b :=
  hx.bind hy

theorem Emits.within (h : Emits body out ()) (wrap : Script → ω) :
    Emits (Plan.within body wrap) [wrap out] () :=
  fun t => within_of_ok (h t) wrap

theorem Emits.block (h : Emits body out ()) (template : String) (args : List Arg) :
    Emits (Plan.block template args body) [.block template args out] () :=
  h.within _

theorem emits_forM {f : β → Plan ω PUnit} {g : β → List ω} (bs : List β) (h : ∀ b, Emits (f b) (g b) ()) :
    Emits (bs.forM f) (bs.flatMap g) () := by
  induction bs with
  | nil => exact emits_pure _
  | cons b bs ih => exact (h b).bind ih

theorem emits_mapM {f : β → Plan ω α} {g : β → α} {bs : List β} (h : ∀ b ∈ bs, Emits (f b) [] (g b)) :
    Emits (bs.mapM f) [] (bs.map g) := by
  suffices hloop : ∀ acc, Emits (List.mapM.loop f bs acc) [] (acc.reverse ++ bs.map g) from hloop []
  induction bs with
  | nil =>
    intro acc
    rw [List.map_nil, List.append_nil]
    exact emits_pure _
  | cons b bs ih =>
    intro acc
    have hrest := ih (fun c hc => h c (List.mem_cons_of_mem _ hc)) (g b :: acc)
    rw [List.reverse_cons, List.append_assoc] at hrest
    exact (h b List.mem_cons_self).bind hrest

end Plan

namespace Package

open Plan

/-! ### What the written method does -/

/-- The text of a lone argument. -/
def loneText? : List Arg → Option String
  | [.literal s] => some s
  | _ => none

mutual

/-- What a statement binds `candidates` to, for an operation of the given name. -/
def boundBy (operation : String) : Step → Option String
  | .line template args => if template = "candidates = $L" then loneText? args else none
  | .block template _ body =>
    if template = "match auth_parameters.operation:" then boundByMatch operation body else none
  | _ => none

/-- Of the cases of a `match`, the first counts whose label is the operation, or that has no label. -/
def boundByMatch (operation : String) : Script → Option String
  | [] => none
  | .block template args body :: rest =>
    if template = "case _:" ∨ template = "case $S:" ∧ loneText? args = some operation then
      boundByAll operation body
    else boundByMatch operation rest
  | _ :: rest => boundByMatch operation rest

/-- Of several statements, the last counts that binds the name. -/
def boundByAll (operation : String) : Script → Option String
  | [] => none
  | step :: rest => (boundByAll operation rest).or (boundBy operation step)

end

/-- The body of the method of the resolver class, with which the auth module ends. -/
def resolverMethod? (script : Script) : Option Script :=
  match script.getLast? with
  | some (.scope _ [.define .classDef _ _ _ [_, _, .block _ _ method]]) => some method
  | _ => none

/-- The candidates that the method of the auth module takes for an operation of the given name. -/
def candidatesFor (operation : String) (script : Script) : Option String :=
  (resolverMethod? script).bind (boundByAll operation)

/-- The steps that choose the candidates. -/
def choiceSteps (service : String) (overrides : List (String × String)) : Script :=
  if overrides.isEmpty then [.line "candidates = $L" [.literal service]]
  else [.block "match auth_parameters.operation:" [] ((overrides.map fun o =>
    .block "case $S:" [.literal o.1] [.line "candidates = $L" [.literal o.2]]) ++
      [.block "case _:" [] [.line "candidates = $L" [.literal service]]])]

theorem candidateChoice_emits (service : String) (overrides : List (String × String)) :
    Emits (candidateChoice service overrides) (choiceSteps service overrides) () := by
  unfold candidateChoice choiceSteps
  split
  · exact emits_line _ _
  · have hcases := emits_forM overrides fun o =>
      (emits_line "candidates = $L" [.literal o.2]).block "case $S:" [.literal o.1]
    have hdefault := (emits_line "candidates = $L" [.literal service]).block "case _:" []
    rw [← List.map_eq_flatMap] at hcases
    exact (hcases.seq hdefault).block _ _

/-- **A `match` takes the candidates of the first case with the name**, or else the service's. -/
theorem boundByAll_choiceSteps (operation service : String) (overrides : List (String × String)) :
    boundByAll operation (choiceSteps service overrides) =
      some (((overrides.find? fun o => o.1 == operation).map (·.2)).getD service) := by
  have hmatch : ∀ os : List (String × String), boundByMatch operation ((os.map fun o =>
      .block "case $S:" [.literal o.1] [.line "candidates = $L" [.literal o.2]]) ++
        [.block "case _:" [] [.line "candidates = $L" [.literal service]]]) =
      some (((os.find? fun o => o.1 == operation).map (·.2)).getD service) := by
    intro os
    induction os with
    | nil => simp [boundByMatch, boundByAll, boundBy, loneText?]
    | cons o os ih =>
      by_cases h : o.1 = operation
      · simp [boundByMatch, boundByAll, boundBy, loneText?, h]
      · simp [boundByMatch, loneText?, h, ih]
  unfold choiceSteps
  split
  · rename_i hempty
    rw [List.isEmpty_iff.1 hempty]
    simp [boundByAll, boundBy, loneText?]
  · simp [boundByAll, boundBy, hmatch overrides]

/-- The body of the resolver's method. -/
def methodSteps (service : String) (overrides : List (String × String)) : Script :=
  .line "candidates: list[$T[[$T], $T | None]]" [Library.callable, Library.authParams, Library.authOption] ::
    (choiceSteps service overrides ++ [
      .newline,
      .line "auth_options: list[$T] = []" [Library.authOption],
      .block "for factory in candidates:" [] [
        .block "if (option := factory(auth_parameters)) is not None:" [] [.line "auth_options.append(option)" []]],
      .line "return auth_options" []])

theorem boundByAll_append (operation : String) (script more : Script) :
    boundByAll operation (script ++ more) = (boundByAll operation more).or (boundByAll operation script) := by
  induction script with
  | nil => simp [boundByAll]
  | cons step rest ih => simp [boundByAll, ih, Option.or_assoc]

theorem boundByAll_methodSteps (operation service : String) (overrides : List (String × String)) :
    boundByAll operation (methodSteps service overrides) = boundByAll operation (choiceSteps service overrides) := by
  unfold methodSteps
  rw [boundByAll, boundByAll_append]
  simp [boundByAll, boundBy]

theorem resolverClass_emits (cx : Context) (name service : String) (overrides : List (String × String)) :
    ∃ docs header args, Emits (resolverClass cx name service overrides)
      [.define .classDef name ":" [] [docs, .newline, .block header args (methodSteps service overrides)]] () := by
  have hnewline : Emits newline [.newline] () := fun _ => rfl
  have hloop := ((emits_line "auth_options.append(option)" []).block
    "if (option := factory(auth_parameters)) is not None:" []).block "for factory in candidates:" []
  have hmethod := (emits_line "candidates: list[$T[[$T], $T | None]]"
      [Library.callable, Library.authParams, Library.authOption]).seq <|
    (candidateChoice_emits service overrides).seq <| hnewline.seq <|
    (emits_line "auth_options: list[$T] = []" [Library.authOption]).seq <|
    hloop.seq <| emits_line "return auth_options" []
  have hdocs : ∀ text, Emits (docs text) [.docs text] () := fun _ _ => rfl
  exact ⟨_, _, _, ((hdocs _).seq <| hnewline.seq (hmethod.block _ _)).within _⟩

/-! ### The plan of the auth module -/

variable {cx : Context} {schemes : List AuthScheme} {r : AuthResolution}

theorem findScheme_ok {id : ShapeId} (h : id ∈ schemes.map AuthScheme.id) :
    ∃ scheme, findScheme schemes id = .ok scheme ∧ scheme ∈ schemes ∧ scheme.id = id := by
  obtain ⟨scheme, hscheme, hid⟩ := List.mem_map.1 h
  cases hfind : schemes.find? fun s => s.id == id with
  | none => exact absurd (List.find?_eq_none.1 hfind scheme hscheme) (by simp [hid])
  | some found =>
    refine ⟨found, by rw [findScheme, hfind], List.mem_of_find?_eq_some hfind, ?_⟩
    simpa using List.find?_some hfind

/-- The functions of those schemes that there are, as a list. -/
def candidateList (schemes : List AuthScheme) (ids : List ShapeId) : String :=
  "[" ++ ", ".intercalate ((ids.filterMap fun id => schemes.find? fun s => s.id == id).map AuthScheme.factoryName) ++ "]"

theorem factoryList_ok {ids : List ShapeId} (h : ∀ id ∈ ids, id ∈ schemes.map AuthScheme.id) :
    factoryList schemes ids = .ok (candidateList schemes ids) := by
  have hfound : ids.mapM (findScheme schemes) = .ok (ids.filterMap fun id => schemes.find? fun s => s.id == id) := by
    induction ids with
    | nil => rfl
    | cons id ids ih =>
      obtain ⟨scheme, hscheme, -⟩ := findScheme_ok (h id List.mem_cons_self)
      have hfind : (schemes.find? fun s => s.id == id) = some scheme := by
        unfold findScheme at hscheme
        split at hscheme
        · cases hscheme
          assumption
        · cases hscheme
      rw [List.mapM_cons, hscheme, ih fun id hid => h id (List.mem_cons_of_mem _ hid), List.filterMap_cons, hfind]
      rfl
  unfold factoryList
  rw [hfound]
  rfl

/-- The function of a scheme that is used fails so. -/
def FactoryFails (cx : Context) (schemes : List AuthScheme) (ids : List ShapeId) (e : Error) : Prop :=
  ∃ scheme ∈ schemes, scheme.id ∈ ids ∧ ∃ t, (scheme.factory cx t).result = .error e

theorem factories_fail (ids : List ShapeId) : (∀ id ∈ ids, id ∈ schemes.map AuthScheme.id) → ∀ {t e},
    ((ids.forM fun id => do
      let scheme ← findScheme schemes id
      scheme.factory cx
      separate : Plan Step Unit) t).result = .error e → FactoryFails cx schemes ids e := by
  induction ids with
  | nil =>
    intro _ t e h
    cases h
  | cons id ids ih =>
    intro hids t e h
    obtain ⟨scheme, hscheme, hmem, rfl⟩ := findScheme_ok (hids id List.mem_cons_self)
    rcases bind_error h with h | ⟨_, -, h⟩
    · rcases bind_error h with h | ⟨found, hfound, h⟩
      · exact absurd (hscheme.symm.trans h) (by simp)
      · obtain rfl : scheme = found := Except.ok.inj (hscheme.symm.trans hfound)
        rcases bind_error h with h | ⟨_, -, h⟩
        · exact ⟨scheme, hmem, List.mem_cons_self, _, h⟩
        · cases h
    · obtain ⟨used, hused, hid, hfails⟩ := ih (fun id hid => hids id (List.mem_cons_of_mem _ hid)) h
      exact ⟨used, hused, List.mem_cons_of_mem _ hid, hfails⟩

/-- **The plan of the auth module** succeeds unless the function of a scheme fails. Then the module ends with
the resolver class, which knows each override by the name of its operation. -/
theorem authSchemes_outcome (h : ∀ id ∈ r.all, id ∈ schemes.map AuthScheme.id) (t : Table) :
    (∃ e, (authSchemes cx r schemes t).result = .error e ∧ FactoryFails cx schemes r.all e) ∨
    ∃ edit, (authSchemes cx r schemes t).result = .ok () ∧ (authSchemes cx r schemes t).out = [edit] ∧
      ∀ name, candidatesFor name edit.script = some (candidateList schemes
        (((r.overrides.find? fun e => e.1.name == name).map (·.2)).getD r.service)) := by
  have hservice := factoryList_ok fun id hid => h id ((AuthResolution.mem_all r id).2 (.inl hid))
  have hoverride : ∀ e ∈ r.overrides, factoryList schemes e.2 = .ok (candidateList schemes e.2) := fun e he =>
    factoryList_ok fun id hid => h id ((AuthResolution.mem_all r id).2 (.inr ⟨e, he, hid⟩))
  let overrides := r.overrides.map fun e => (e.1.name, candidateList schemes e.2)
  obtain ⟨docs, header, args, hclass⟩ :=
    resolverClass_emits cx (authResolver cx.package).name (candidateList schemes r.service) overrides
  have hoverrides : Emits (r.overrides.mapM fun e => (do
      let candidates ← factoryList schemes e.2
      return (e.1.name, candidates) : Plan Step (String × String))) [] overrides :=
    emits_mapM fun e he => (emits_lift (hoverride e he)).bind (emits_pure _)
  let tail : Plan Step Unit := do
    let service ← factoryList schemes r.service
    let overrides ← r.overrides.mapM fun e => do
      let candidates ← factoryList schemes e.2
      return (e.1.name, candidates)
    scope (.authResolver cx.service.id) (resolverClass cx (authResolver cx.package).name service overrides)
  have hresolver : Emits tail
      [.scope (some (.authResolver cx.service.id)) [.define .classDef (authResolver cx.package).name ":" []
        [docs, .newline, .block header args (methodSteps (candidateList schemes r.service) overrides)]]] () :=
    (emits_lift hservice).bind (hoverrides.bind (hclass.within _))
  -- only the functions of the schemes can fail: all that follows them has been resolved
  cases hfactories : ((r.all.forM fun id => do
      let scheme ← findScheme schemes id
      scheme.factory cx
      separate : Plan Step Unit) t) with
  | mk out result names =>
    cases result with
    | error e =>
      have hplan : authSchemes cx r schemes t = _ := within_of_error (bind_of_error hfactories fun _ => tail) _
      rw [hplan]
      exact .inl ⟨e, rfl, factories_fail r.all h (by rw [hfactories])⟩
    | ok _ =>
      have hbody := bind_of_ok hfactories fun _ => tail
      rw [hresolver names] at hbody
      have hplan : authSchemes cx r schemes t = _ := within_of_ok hbody _
      rw [hplan]
      refine .inr ⟨_, rfl, rfl, fun name => ?_⟩
      have hmethod : resolverMethod? (out ++ [.scope (some (.authResolver cx.service.id))
          [.define .classDef (authResolver cx.package).name ":" []
            [docs, .newline, .block header args (methodSteps (candidateList schemes r.service) overrides)]]]) =
          some (methodSteps (candidateList schemes r.service) overrides) := by
        rw [resolverMethod?, List.getLast?_concat]
      rw [candidatesFor, hmethod, Option.bind_some, boundByAll_methodSteps, boundByAll_choiceSteps, List.find?_map]
      cases hfind : r.overrides.find? fun e => e.1.name == name with
      | none | some e => simp [hfind]

/-- **The emitted resolver implements the resolution**, for any operations with different ids.
1. The resolution selects from the lists of schemes what is registered, and keeps their order.
2. With the registered schemes at hand, the plan of the auth module finds each that is used. It fails only
   where the function of one does.
3. For each operation the method that is written takes the candidates that the resolution has for its id,
   although it goes by its name. -/
theorem resolver_dispatches (m : Model) (s : Shape) (operations : List Shape) (registered : List ShapeId)
    (r : AuthResolution) (hdistinct : (operations.map Shape.id).Nodup)
    (h : AuthResolution.of m s operations registered = .ok r) :
    AuthResolution.Selection m s operations registered r ∧
    ∀ (cx : Context) (schemes : List AuthScheme), (∀ id, id ∈ schemes.map AuthScheme.id ↔ id ∈ registered) →
      (∀ id ∈ r.all, ∃ scheme, findScheme schemes id = .ok scheme) ∧
      (∀ o ∈ operations, factoryList schemes (r.forOperation o.id) = .ok (candidateList schemes (r.forOperation o.id))) ∧
      ∀ t, (∃ e, (authSchemes cx r schemes t).result = .error e ∧ FactoryFails cx schemes r.all e) ∨
        ∃ edit, (authSchemes cx r schemes t).result = .ok () ∧ (authSchemes cx r schemes t).out = [edit] ∧
          ∀ o ∈ operations, candidatesFor o.id.name edit.script = some (candidateList schemes (r.forOperation o.id)) := by
  have hselection := AuthResolution.selection_of_ok hdistinct h
  refine ⟨hselection, fun cx schemes hschemes => ?_⟩
  have hall : ∀ id ∈ r.all, id ∈ schemes.map AuthScheme.id := fun id hid =>
    (hschemes id).2 (hselection.available id hid).2
  refine ⟨fun id hid => ?_, fun o _ => factoryList_ok fun id hid => hall id ?_, fun t => ?_⟩
  · obtain ⟨scheme, hscheme, -⟩ := findScheme_ok (hall id hid)
    exact ⟨scheme, hscheme⟩
  · exact AuthResolution.mem_all_of_forOperation hid
  · refine (authSchemes_outcome hall t).imp_right ?_
    rintro ⟨edit, hresult, hout, hcandidates⟩
    refine ⟨edit, hresult, hout, fun o ho => ?_⟩
    rw [hcandidates, AuthResolution.find?_name hdistinct h ho]
    rfl

/-- A service with one scheme. -/
def bearerService : Shape where
  id := { ns := "ex", name := "Svc" }
  kind := .service {}
  traits := ⟨[(bearerId, .obj [])]⟩

/-- Two operations share the name `Get`, and a third wants no scheme. -/
def bearerOperations : List Shape := [
  { id := { ns := "ex", name := "Get" }, kind := .operation {} },
  { id := { ns := "other", name := "Get" }, kind := .operation {} },
  { id := { ns := "ex", name := "Login" }, kind := .operation {}, traits := ⟨[(TraitId.auth, .arr [])]⟩ }]

def bearerModel : Model where
  shapes := bearerService :: bearerOperations
  distinct := by decide

def bearerContext : Context where
  model := bearerModel
  settings := { service := bearerService.id, module := "shop", outputDir := ⟨"out"⟩ }
  provider := { package := "shop" }
  order := { ordered := bearerModel.shapes.map Shape.id, recursive := [] }
  service := bearerService

theorem bearerModel_of : AuthResolution.of bearerModel bearerService bearerOperations [bearerId] =
    .ok { service := [bearerId], overrides := [({ ns := "ex", name := "Login" }, [])] } := by
  have happlied : Auth.applied bearerModel bearerService = [bearerId] := List.mergeSort_singleton _
  have hservice : Auth.serviceSchemes bearerModel bearerService = .ok [bearerId] := by
    rw [← happlied]
    rfl
  unfold AuthResolution.of
  rw [hservice]
  rfl

/-- Both operations of one name have the service's scheme, and the one with an empty list has none. -/
theorem resolver_dispatches_bearer : ∃ r edit,
    AuthResolution.of bearerModel bearerService bearerOperations [bearerId] = .ok r ∧ r.all.Nodup ∧
    (authSchemes bearerContext r [bearerScheme] {}).out = [edit] ∧
    candidatesFor "Get" edit.script = some "[_create_http_bearer_auth_option]" ∧
    candidatesFor "Login" edit.script = some "[]" := by
  obtain ⟨hselection, hmodule⟩ := resolver_dispatches bearerModel bearerService bearerOperations [bearerId] _
    (by decide) bearerModel_of
  obtain ⟨-, -, houtcome⟩ := hmodule bearerContext [bearerScheme] (fun id => by simp [bearerScheme])
  rcases houtcome {} with ⟨e, -, scheme, hscheme, -, t, hfails⟩ | ⟨edit, -, hout, hcandidates⟩
  · obtain rfl : scheme = bearerScheme := List.mem_singleton.1 hscheme
    cases hfails
  · refine ⟨_, edit, bearerModel_of, hselection.all_nodup, hout, ?_, ?_⟩
    · exact hcandidates _ List.mem_cons_self
    · exact hcandidates _ (List.mem_cons_of_mem _ (List.mem_cons_of_mem _ List.mem_cons_self))

end Package

end ClientGen
