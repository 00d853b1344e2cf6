import ClientGen.Proofs.PathLabels

/-!
# The path of a request

What the function that writes a request does to its path, as its steps tell: it starts from a text and replaces labels
by what members of the input say.

* `requestWriter_sees`: the calls are one for each label, each for a member of the input.
* `request_path_filled`: the path of the request has all labels filled in **exactly if each stands in one form**.
-/

namespace ClientGen

/-- A call on the path of a request. -/
inductive PathCode where
  | start (path : String)
  /-- Replaces a token by what a field of the input says. -/
  | replace (token field : String)

namespace PathCode

/-- The path after a call, if the fields say the texts. -/
def apply (texts : String → List Char) (path : List Char) : PathCode → List Char
  | start path => path.toList
  | replace token field => Package.replaceAll token.toList (texts field) 0 path

/-- The path that calls make. -/
def evaluate (texts : String → List Char) (code : List PathCode) : List Char := code.foldl (apply texts) []

end PathCode

mutual

/-- The calls on the path that a step writes. -/
def Step.pathCode : Step → List PathCode
  | .inline "path = $S" [.literal path] => [.start path]
  | .inline ".replace($S, $T(str(input.$L), safe=\"\"))" [.literal token, .symbol _, .literal field] =>
    [.replace token field]
  | .define _ _ _ _ body => Step.pathCodeAll body
  | _ => []

def Step.pathCodeAll : List Step → List PathCode
  | [] => []
  | s :: rest => Step.pathCode s ++ Step.pathCodeAll rest

end

theorem Step.pathCodeAll_eq (steps : List Step) : Step.pathCodeAll steps = steps.flatMap Step.pathCode := by
  induction steps with
  | nil => rfl
  | cons s rest ih => rw [pathCodeAll, ih, List.flatMap_cons]

namespace Plan

variable {ω α β δ : Type} {look : ω → List δ} {seen : List δ} {S S' : List δ → Prop}

/-- What is known of all that is seen of a plan, if it succeeds. -/
def Sees (look : ω → List δ) (x : Plan ω α) (S : List δ → Prop) : Prop :=
  ∀ t a, (x t).result = .ok a → S ((x t).out.flatMap look)

theorem bind_out {x : Plan ω α} {t : Table} {a : α} (h : (x t).result = .ok a) (f : α → Plan ω β) :
    ((x >>= f) t).out = (x t).out ++ (f a (x t).names).out := by
  simp only [Bind.bind, Plan.bind, h]

theorem Sees.imp {x : Plan ω α} (h : Sees look x S) (hS : ∀ seen, S seen → S' seen) : Sees look x S' :=
  fun t a hok => hS _ (h t a hok)

theorem Sees.seq {x : Plan ω α} {f : α → Plan ω β} (hx : Lists look x seen)
    (hf : ∀ a, Sees look (f a) fun rest => S (seen ++ rest)) : Sees look (x >>= f) S := by
  intro t b hok
  obtain ⟨a, ha, hb⟩ := bind_ok hok
  rw [bind_out ha, List.flatMap_append, hx t a ha]
  exact hf a _ b hb

theorem Sees.after {x : Plan ω α} {f : α → Plan ω β} (hx : Lists look x []) (hf : ∀ a, Sees look (f a) S) :
    Sees look (x >>= f) S := Sees.seq hx hf

theorem Sees.before {x : Plan ω α} {f : α → Plan ω β} (hx : Sees look x S) (hf : ∀ a, Lists look (f a) []) :
    Sees look (x >>= f) S := by
  intro t b hok
  obtain ⟨a, ha, hb⟩ := bind_ok hok
  rw [bind_out ha, List.flatMap_append, hf a _ b hb, List.append_nil]
  exact hx t a ha

/-- A computation that the plan cannot do without: its value may be taken as known. -/
theorem sees_known {e : Except Error α} {f : α → Plan ω β} (hf : ∀ a, e = .ok a → Sees look (f a) S) :
    Sees look ((liftM e : Plan ω α) >>= f) S := by
  intro t b hok
  cases he : e with
  | error error =>
    rw [he] at hok
    cases hok
  | ok a =>
    rw [he] at hok
    exact hf a he t b hok

theorem Sees.within {look' : Step → List δ} {body : Plan Step Unit} {wrap : Script → ω}
    (hwrap : ∀ out, look (wrap out) = out.flatMap look') (h : Sees look' body S) : Sees look (within body wrap) S := by
  intro t a hok
  unfold Plan.within at hok ⊢
  cases hr : (body t).result with
  | error e =>
    simp only [hr] at hok
    cases hok
  | ok b =>
    simp only [hr]
    rw [List.flatMap_singleton, hwrap]
    exact h t b hr

theorem Sees.forM (bs : List β) {f : β → Plan ω PUnit} {P : β → Prop} {one : β → List δ}
    (h : ∀ b, Sees look (f b) fun seen => P b ∧ seen = one b) :
    Sees look (bs.forM f) fun seen => (∀ b ∈ bs, P b) ∧ seen = bs.flatMap one := by
  induction bs with
  | nil => exact fun t a hok => ⟨by simp, rfl⟩
  | cons b bs ih =>
    intro t a hok
    obtain ⟨_, hfirst, hrest⟩ := bind_ok hok
    have hout : (((b :: bs).forM f) t).out = (f b t).out ++ ((bs.forM f) (f b t).names).out := bind_out hfirst _
    obtain ⟨hb, hseen⟩ := h b t _ hfirst
    obtain ⟨hbs, hseen'⟩ := ih _ _ hrest
    rw [hout, List.flatMap_append, hseen, hseen', List.flatMap_cons]
    exact ⟨List.forall_mem_cons.2 ⟨hb, hbs⟩, rfl⟩

end Plan

namespace Package

open Plan

/-- The member of an operation's input that a name denotes. -/
def namedMember? (cx : Context) (input : Option ShapeId) (name : List Char) : Option Member :=
  (input.bind cx.model.get?).bind fun s => s.member? (String.ofList name)

variable (cx : Context) (operation : ShapeId) (input : Option ShapeId)

/-- The call for a name. -/
def nameCall (path : String) (name : List Char) : List PathCode :=
  (namedMember? cx input name).toList.map fun m => .replace (labelToken path.toList name) (cx.memberName m)

theorem namedMember?_of_ok {name : List Char} {m : Member} (h : labelMember cx operation input name = .ok m) :
    namedMember? cx input name = some m := by
  unfold namedMember?
  unfold labelMember at h
  dsimp only at h
  split at h
  · cases h
    assumption
  · cases h

theorem labelCall_sees (path : String) (name : List Char) :
    Sees Step.pathCode (do
      let m ← labelMember cx operation input name
      inline ".replace($S, $T(str(input.$L), safe=\"\"))" [labelToken path.toList name, Library.quote, cx.memberName m])
    fun code => (namedMember? cx input name).isSome ∧ code = nameCall cx input path name := by
  refine sees_known fun m hm => ?_
  have hnamed := namedMember?_of_ok cx operation input hm
  rw [nameCall, hnamed]
  exact fun t a hok => ⟨rfl, rfl⟩

/-- A path that is written has a member for each label, and a call for each. -/
theorem requestPath_sees (path : String) : Sees Step.pathCode (requestPath cx operation input path) fun code =>
    (∀ name ∈ pathLabels path.toList, (namedMember? cx input name).isSome) ∧
      code = .start path :: (pathLabels path.toList).flatMap (nameCall cx input path) := by
  have hcalls := Sees.forM (pathLabels path.toList) (labelCall_sees cx operation input path)
  refine Sees.seq (lists_emit _) fun _ => ?_
  refine Sees.before (hcalls.imp fun rest hrest => ?_) fun _ => lists_emit _
  obtain ⟨hall, rfl⟩ := hrest
  exact ⟨hall, rfl⟩

theorem requestBody_lists (p : HttpProtocol) (hasInput : Bool) : Lists Step.pathCode (requestBody p hasInput) [] := by
  cases hasInput
  · exact lists_emit _
  · exact lists_emit _

variable (p : HttpProtocol) (here : String) (shape : Shape) (op : Operation)

theorem referenceOrNone_lists (found : Option Symbol) : Lists Step.pathCode (referenceOrNone here found) [] := by
  cases found with
  | none => exact lists_pure _
  | some s => exact (lists_emit _).after fun _ => lists_pure _

theorem operationValue_lists : Lists Step.pathCode (cx.operationValue input : Plan Step (Option Symbol)) [] := by
  unfold Context.operationValue
  split
  · exact Lists.ite (lists_pure _) ((lists_symbol cx _).after fun _ => lists_pure _)
  · exact lists_pure _

/-- **The calls on the path of a request**: one for each label, in order, and each for a member of the input. -/
theorem requestWriter_sees : Sees Step.pathCode (requestWriter p cx here shape op) fun code =>
    ∃ request, requestLine p.routing cx.service shape = .ok request ∧
      (∀ name ∈ pathLabels (splitTarget request.uri).1.toList, (namedMember? cx op.input name).isSome) ∧
      code = .start (splitTarget request.uri).1 ::
        (pathLabels (splitTarget request.uri).1.toList).flatMap (nameCall cx op.input (splitTarget request.uri).1) := by
  refine Sees.after (operationValue_lists cx op.input) fun found => ?_
  refine sees_known fun request hrequest => ?_
  refine Sees.after (referenceOrNone_lists here found) fun inputType => ?_
  refine Sees.within Step.pathCodeAll_eq ?_
  refine Sees.before ((requestPath_sees cx _ _ _).imp fun code hcode => ⟨request, hrequest, ?_⟩) fun _ => ?_
  · cases found with
    | some s => exact hcode
    | none =>
      -- Without an input no label has a member, so there is none.
      obtain ⟨hall, rfl⟩ := hcode
      have hnone : pathLabels (splitTarget request.uri).1.toList = [] :=
        List.eq_nil_iff_forall_not_mem.2 fun name hname => by simpa [namedMember?] using hall name hname
      rw [hnone]
      exact ⟨by simp, rfl⟩
  · exact (requestBody_lists p _).after fun _ => Lists.after (lists_within fun _ => rfl) fun _ => lists_emit _

/-- The text for a name: what the field of its member says. -/
def memberText (texts : String → List Char) (name : List Char) : List Char :=
  (namedMember? cx input name).elim [] fun m => texts (cx.memberName m)

theorem apply_nameCall (texts : String → List Char) (path : String) {name : List Char} (hname : BraceFree name)
    (hmember : (namedMember? cx input name).isSome) (cs : List Char) :
    (nameCall cx input path name).foldl (PathCode.apply texts) cs =
      replaceAll (inBraces (tokenInner path.toList name)) (memberText cx input texts name) 0 cs := by
  obtain ⟨m, hm⟩ := Option.isSome_iff_exists.1 hmember
  rw [← labelToken_eq hname, nameCall, memberText, hm]
  rfl

theorem evaluate_calls (texts : String → List Char) (path : String)
    (hmembers : ∀ name ∈ pathLabels path.toList, (namedMember? cx input name).isSome) :
    PathCode.evaluate texts (.start path :: (pathLabels path.toList).flatMap (nameCall cx input path)) =
      replaceEach (labelCalls (memberText cx input texts) path.toList) path.toList := by
  have hlabels : ∀ inner ∈ writtenLabels path.toList, BraceFree (labelName inner) ∧
      (namedMember? cx input (labelName inner)).isSome := fun inner hinner =>
    ⟨braceFree_labelName (braceFree_of_mem (mem_writtenLabels.1 hinner)),
      hmembers _ (pathLabels_eq path.toList ▸ List.mem_map_of_mem hinner)⟩
  rw [PathCode.evaluate, List.foldl_cons, pathLabels_eq, labelCalls, replaceEach, List.foldl_map, List.flatMap_map,
    List.foldl_flatMap]
  refine List.foldl_ext _ _ _ fun cs inner hinner => ?_
  exact apply_nameCall cx input texts path (hlabels inner hinner).1 (hlabels inner hinner).2 cs

/-- **What becomes of the labels of a path**, for every request that is written and whatever its fields say. All are
filled in, and none is left, exactly if each stands in one form and the filled path does not spell one. Texts without
braces spell none, unless the path has opening braces that begin no label. -/
theorem request_path_filled {t : Table} (hok : (requestWriter p cx here shape op t).result = .ok ()) :
    ∃ request, requestLine p.routing cx.service shape = .ok request ∧
      (∀ name ∈ pathLabels (splitTarget request.uri).1.toList, (namedMember? cx op.input name).isSome) ∧
      ∀ texts : String → List Char,
        let path := (splitTarget request.uri).1.toList
        let result := PathCode.evaluate texts ((requestWriter p cx here shape op t).out.flatMap Step.pathCode)
        let filled := fillPath (memberText cx op.input texts) path
        (result = filled ∧ ¬ LabelLeft path result ↔ OneForm path ∧ ¬ LabelLeft path filled) ∧
          ((∀ field, BraceFree (texts field)) → .char '\x7b' ∉ pathParts path → ¬ LabelLeft path filled) := by
  obtain ⟨request, hrequest, hmembers, hcode⟩ := requestWriter_sees cx p here shape op t () hok
  refine ⟨request, hrequest, hmembers, fun texts => ?_⟩
  dsimp only
  rw [hcode, evaluate_calls cx op.input texts _ hmembers]
  refine ⟨replaceEach_iff, fun htexts => not_labelLeft fun name => ?_⟩
  unfold memberText
  cases namedMember? cx op.input name with
  | none => exact ⟨List.not_mem_nil, List.not_mem_nil⟩
  | some m => exact htexts _

def getInput : ShapeId := { ns := "ex", name := "GetInput" }

/-- An operation whose path has one name in both forms. -/
def twoForms : Shape where
  id := { ns := "ex", name := "Get" }
  kind := .operation { input := some getInput }
  traits := ⟨[(TraitId.http, .obj [("method", .str "GET"), ("uri", .str "/\x7ba\x7d/\x7ba+\x7d")])]⟩

def twoFormsContext : Context where
  model := {
    shapes := [{
      id := getInput
      kind := .struct [{ id := { getInput with member := some "a" }, target := .prelude "String" }] }]
    distinct := by decide }
  settings := { service := { ns := "ex", name := "Svc" }, module := "shop", outputDir := ⟨"out"⟩ }
  provider := { package := "shop" }
  order := { ordered := [getInput], recursive := [] }
  service := { id := { ns := "ex", name := "Svc" }, kind := .service {} }

/-- The plain form is left: the token of both calls is the one with a plus sign. -/
theorem request_path_left :
    let written := requestWriter restJson twoFormsContext "shop" twoForms { input := some getInput } {}
    let path := "/\x7ba\x7d/\x7ba+\x7d".toList
    let result := PathCode.evaluate (fun _ => ['x']) (written.out.flatMap Step.pathCode)
    written.result = .ok () ∧
      ¬ (result = fillPath (memberText twoFormsContext (some getInput) fun _ => ['x']) path ∧
        ¬ LabelLeft path result) := by
  have hok :
      (requestWriter restJson twoFormsContext "shop" twoForms { input := some getInput } {}).result = .ok () := by
    decide +kernel
  refine ⟨hok, fun hfilled => ?_⟩
  obtain ⟨request, hrequest, -, htexts⟩ := request_path_filled twoFormsContext restJson "shop" twoForms _ hok
  cases hrequest
  have hform : ¬ OneForm "/\x7ba\x7d/\x7ba+\x7d".toList := by decide +kernel
  exact hform ((htexts fun _ => ['x']).1.1 hfilled).1

end Package

end ClientGen
