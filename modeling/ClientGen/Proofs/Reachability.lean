import ClientGen.Proofs.WalkSet
import Mathlib.Data.List.Perm.Subperm
import Mathlib.Data.List.TakeWhile
import Mathlib.Logic.Relation

/-!
# What a walk reaches

`Model.Refers m a b`: a reference of the shape `a` resolves to the shape `b`. `Model.Strands m root s target`:
references lead from the root to the shape `s`, whose reference to `target` leads nowhere.

* `walkFrom_ends`: a walk under way ends with an empty stack, or at a reference that strands.
* `mem_walk_iff`: a walk that succeeds collects exactly the declared shapes that references lead to.
* `get?_prune`: pruning takes away the shapes that are not reached, and changes nothing else.
* `prune_reaches`: in the pruned model every shape is still reached.
-/

namespace ClientGen.Model

open Relation

variable {m p : Model} {root id a b : ShapeId} {s : Shape} {nodes : List ShapeId}

/-- A reference of one shape, and the shape that it resolves to. -/
def Refers (m : Model) (a b : ShapeId) : Prop :=
  ∃ s, m.get? a = some s ∧ ∃ target ∈ s.references, ∃ next, m.get? target = some next ∧ next.id = b

/-- References lead from the shape of the root to the shape. -/
def Reaches (m : Model) (root id : ShapeId) : Prop := ReflTransGen m.Refers root.root id

theorem Reaches.root_eq (h : m.Reaches root id) : id.root = id := by
  cases h with
  | refl => rfl
  | tail _ href =>
    obtain ⟨-, -, target, -, next, hnext, rfl⟩ := href
    rw [(get?_id hnext).1]
    rfl

theorem prelude_references (h : Prelude.shape? id = some s) : s.references = [] := by
  unfold Prelude.shape? at h
  split at h
  · cases h
    rfl
  · split at h
    · obtain ⟨e, -, rfl⟩ := Option.map_eq_some_iff.1 h
      rfl
    · cases h

theorem Refers.declares (h : m.Refers a b) : m.declares a.root = true := by
  obtain ⟨s, hs, target, htarget, -⟩ := h
  rw [declares_iff]
  unfold get? at hs
  split at hs
  · rename_i hd
    exact ⟨_, hd⟩
  · rw [prelude_references hs] at htarget
    cases htarget

/-- What holds while a walk goes on: only reached shapes are collected or waiting, and whatever a
collected shape refers to is collected, waiting or not declared. -/
structure Frontier (m : Model) (root : ShapeId) (stack : List Shape) (seen : List ShapeId) : Prop where
  waiting : ∀ s ∈ stack, m.get? s.id = some s ∧ m.Reaches root s.id
  reached : ∀ id ∈ seen, m.Reaches root id
  start : m.declares root.root = true → root.root ∈ seen ∨ ∃ s ∈ stack, s.id = root.root
  edges : ∀ a ∈ seen, ∀ b, m.Refers a b → m.declares b = true → b ∈ seen ∨ ∃ s ∈ stack, s.id = b

theorem Frontier.drop {stack : List Shape} {seen : List ShapeId} (h : m.Frontier root stack seen) :
    m.Frontier root (stack.dropWhile (m.isPassed seen)) seen := by
  have hwait : ∀ b, m.declares b = true → (b ∈ seen ∨ ∃ s ∈ stack, s.id = b) →
      b ∈ seen ∨ ∃ s ∈ stack.dropWhile (m.isPassed seen), s.id = b := by
    rintro b hb (hmem | ⟨s, hs, rfl⟩)
    · exact .inl hmem
    · rw [← List.takeWhile_append_dropWhile (p := m.isPassed seen) (l := stack)] at hs
      rcases List.mem_append.1 hs with hs | hs
      · have hpass := List.mem_takeWhile_imp hs
        simp only [isPassed, hb, Bool.not_true, Bool.false_or, List.contains_iff_mem] at hpass
        exact .inl hpass
      · exact .inr ⟨s, hs, rfl⟩
  refine ⟨?_, h.reached, fun hroot => hwait _ hroot (h.start hroot), ?_⟩
  · exact fun s hs => h.waiting s ((List.dropWhile_sublist _).subset hs)
  · exact fun a ha b hab hb => hwait b hb (h.edges a ha b hab hb)

theorem mem_resolveReferences {next : List Shape} (h : m.resolveReferences s = .ok next)
    {target : ShapeId} (htarget : target ∈ s.references) : ∃ t ∈ next, m.get? target = some t := by
  obtain ⟨t, ht, hf⟩ := exists_mem_of_mapM h htarget
  split at hf
  · rename_i hg
    cases hf
    exact ⟨_, ht, hg⟩
  · cases hf

theorem Frontier.visit {rest next : List Shape} {seen : List ShapeId}
    (h : m.Frontier root (s :: rest) seen) (hnext : m.resolveReferences s = .ok next) :
    m.Frontier root (next.reverse ++ rest) (s.id :: seen) := by
  obtain ⟨hs, hreach⟩ := h.waiting s (by simp)
  -- what was collected or waiting still is: only the visited shape changes sides
  have hmoved : ∀ b, (b ∈ seen ∨ ∃ t ∈ s :: rest, t.id = b) →
      b ∈ s.id :: seen ∨ ∃ t ∈ next.reverse ++ rest, t.id = b := by
    rintro b (hb | ⟨t, ht, rfl⟩)
    · exact .inl (List.mem_cons_of_mem _ hb)
    · rcases List.mem_cons.1 ht with rfl | ht
      · exact .inl List.mem_cons_self
      · exact .inr ⟨t, List.mem_append_right _ ht, rfl⟩
  refine ⟨?_, ?_, fun hroot => hmoved _ (h.start hroot), ?_⟩
  · intro t ht
    rcases List.mem_append.1 ht with ht | ht
    · obtain ⟨target, htarget, hf⟩ := exists_of_mem_mapM hnext (List.mem_reverse.1 ht)
      split at hf
      · rename_i hg
        cases hf
        exact ⟨(get?_id hg).2, hreach.tail ⟨s, hs, target, htarget, _, hg, rfl⟩⟩
      · cases hf
    · exact h.waiting t (List.mem_cons_of_mem _ ht)
  · intro x hx
    rcases List.mem_cons.1 hx with rfl | hx
    · exact hreach
    · exact h.reached x hx
  · intro x hx b hxb hb
    rcases List.mem_cons.1 hx with rfl | hx
    · obtain ⟨s', hs', target, htarget, t, ht, rfl⟩ := hxb
      rw [hs] at hs'
      cases hs'
      obtain ⟨t', ht', hg⟩ := mem_resolveReferences hnext htarget
      rw [ht] at hg
      cases hg
      exact .inr ⟨t, List.mem_append_left _ (List.mem_reverse.2 ht'), rfl⟩
    · exact hmoved b (h.edges x hx b hxb hb)

/-- Collected shapes are declared, so they are at most as many as the model has. -/
theorem Collected.length_le {seen : List ShapeId} (h : m.Collected seen) : seen.length ≤ m.shapes.length := by
  have hsub : seen ⊆ m.shapes.map Shape.id := by
    intro x hx
    obtain ⟨s, hs⟩ := declares_iff.1 (h.declared x hx).1
    exact List.mem_map.2 ⟨s, mem_of_declared? hs, declared?_id hs⟩
  have hle := (h.nodup.subperm hsub).length_le
  rwa [List.length_map] at hle

/-- References lead from the root to the declared shape, and its reference to the target leads nowhere. -/
structure Strands (m : Model) (root : ShapeId) (shape : Shape) (target : ShapeId) : Prop where
  declared : m.declares shape.id = true
  resolved : m.get? shape.id = some shape
  reached : m.Reaches root shape.id
  listed : target ∈ shape.references
  missing : m.get? target = none

/-- What holds of a walk under way: besides `Frontier` and `Collected`, that the references of all shapes
visited so far lead somewhere. -/
structure Underway (m : Model) (root : ShapeId) (stack : List Shape) (seen : List ShapeId) : Prop extends
    m.Frontier root stack seen, m.Collected seen where
  resolved : ∀ id ∈ seen, ∀ s, m.get? id = some s → ∀ target ∈ s.references, ∃ next, m.get? target = some next

theorem resolveReferences_error {s : Shape} {e : Error} (h : m.resolveReferences s = .error e) :
    ∃ target ∈ s.references, m.get? target = none ∧ e = .invalidModel (.danglingReference s.id target) := by
  unfold resolveReferences at h
  generalize s.references = targets at h ⊢
  induction targets with
  | nil => cases h
  | cons target rest ih =>
    rw [List.mapM_cons] at h
    rcases bind_error_iff.1 h with h | ⟨next, -, h⟩
    · split at h
      · cases h
      · rename_i hnone
        cases h
        exact ⟨target, List.mem_cons_self, hnone, rfl⟩
    · rcases bind_error_iff.1 h with h | ⟨others, -, h⟩
      · obtain ⟨target', hmem, hmissing, he⟩ := ih h
        exact ⟨target', List.mem_cons_of_mem _ hmem, hmissing, he⟩
      · cases h

namespace Underway

variable {stack rest next : List Shape} {seen : List ShapeId} {s : Shape}

theorem initial (hs : m.get? root = some s) : m.Underway root [s] [] where
  waiting := by
    intro t ht
    obtain ⟨hid, hget⟩ := get?_id hs
    rw [List.mem_singleton.1 ht]
    refine ⟨hget, ?_⟩
    rw [hid]
    exact .refl
  reached := by simp
  start _ := .inr ⟨s, by simp, (get?_id hs).1⟩
  edges := by simp
  nodup := List.nodup_nil
  declared := by simp
  resolved := by simp

theorem visit (h : m.Underway root stack seen) (hdrop : stack.dropWhile (m.isPassed seen) = s :: rest)
    (hnext : m.resolveReferences s = .ok next) : m.Underway root (next.reverse ++ rest) (s.id :: seen) := by
  obtain ⟨hs, -, hdeclared, hnew⟩ := dropWhile_isPassed hdrop
  have hget := (h.waiting s hs).1
  have hfrontier := h.toFrontier.drop
  rw [hdrop] at hfrontier
  refine ⟨hfrontier.visit hnext, ⟨List.nodup_cons.2 ⟨hnew, h.nodup⟩, ?_⟩, ?_⟩
  · intro id hid
    rcases List.mem_cons.1 hid with rfl | hid
    · exact ⟨hdeclared, s, hget, rfl⟩
    · exact h.declared id hid
  · intro id hid t ht target htarget
    rcases List.mem_cons.1 hid with rfl | hid
    · rw [hget] at ht
      cases ht
      obtain ⟨found, -, hfound⟩ := mem_resolveReferences hnext htarget
      exact ⟨found, hfound⟩
    · exact h.resolved id hid t ht target htarget

/-- A shape on the stack with a reference that leads nowhere strands the walk. -/
theorem strands (h : m.Underway root stack seen) (hdrop : stack.dropWhile (m.isPassed seen) = s :: rest)
    {target : ShapeId} (htarget : target ∈ s.references) (hmissing : m.get? target = none) :
    m.Strands root s target := by
  obtain ⟨hs, -, hdeclared, -⟩ := dropWhile_isPassed hdrop
  obtain ⟨hget, hreached⟩ := h.waiting s hs
  exact ⟨hdeclared, hget, hreached, htarget, hmissing⟩

end Underway

/-- **How a walk under way ends**: with an empty stack, or at a reference that strands. -/
theorem walkFrom_ends : ∀ (bound : Nat) (stack : List Shape) (seen : List ShapeId),
    m.Underway root stack seen → m.shapes.length < seen.length + bound →
    (∃ out, m.walkFrom bound stack seen = .ok out ∧ m.Underway root [] out) ∨
      ∃ shape target, m.Strands root shape target ∧
        m.walkFrom bound stack seen = .error (.invalidModel (.danglingReference shape.id target)) := by
  intro bound
  induction bound with
  | zero =>
    -- the shapes seen are declared and different, so there is room for one more visit
    intro stack seen h hbound
    have := h.toCollected.length_le
    omega
  | succ bound ih =>
    intro stack seen h hbound
    rw [walkFrom]
    split
    · rename_i hdrop
      have hfrontier := h.toFrontier.drop
      rw [hdrop] at hfrontier
      exact .inl ⟨seen, rfl, hfrontier, h.toCollected, h.resolved⟩
    · rename_i s rest hdrop
      cases hnext : m.resolveReferences s with
      | ok next =>
        refine ih _ _ (h.visit hdrop hnext) ?_
        rw [List.length_cons]
        omega
      | error e =>
        obtain ⟨target, htarget, hmissing, rfl⟩ := resolveReferences_error hnext
        exact .inr ⟨s, target, h.strands hdrop htarget hmissing, rfl⟩

theorem walk_frontier (h : m.walk root = .ok nodes) : m.Frontier root [] nodes := by
  obtain ⟨s, hs, h⟩ := bind_ok_iff.1 h
  obtain ⟨seen, hseen, h⟩ := bind_ok_iff.1 h
  cases h
  have hstart : m.Underway root [s] [] := .initial (expect_eq_ok.1 hs)
  rcases walkFrom_ends (m.shapes.length + 1) [s] [] hstart (by simp) with ⟨out, hout, hend⟩ | ⟨_, _, -, herror⟩
  · cases hseen.symm.trans hout
    refine ⟨hend.waiting, fun x hx => hend.reached x (mem_sortIds.1 hx), ?_, ?_⟩
    · intro hroot
      exact (hend.start hroot).imp mem_sortIds.2 id
    · intro a ha b hab hb
      exact (hend.edges a (mem_sortIds.1 ha) b hab hb).imp mem_sortIds.2 id
  · cases hseen.symm.trans herror

/-- **A walk collects exactly the declared shapes that references lead to.** -/
theorem mem_walk_iff (h : m.walk root = .ok nodes) :
    id ∈ nodes ↔ m.declares id = true ∧ m.Reaches root id := by
  have hf := walk_frontier h
  constructor
  · exact fun hid => ⟨((walk_ok h).declared id hid).1, hf.reached id hid⟩
  · rintro ⟨hdecl, hreach⟩
    -- along the path every shape but the last refers to another, so it is declared
    induction hreach with
    | refl => simpa using hf.start hdecl
    | @tail b c hpath href ih =>
      have hbroot : b.root = b := Reaches.root_eq hpath
      have hb : m.declares b = true := by
        have := href.declares
        rwa [hbroot] at this
      simpa using hf.edges b (ih hb) c href hdecl

/-! ### Pruning -/

theorem prune_ok (h : m.prune root = .ok p) :
    ∃ nodes, m.walk root = .ok nodes ∧ p = m.keep fun s => nodes.contains s.id := by
  obtain ⟨nodes, hnodes, h⟩ := bind_ok_iff.1 h
  cases h
  exact ⟨nodes, hnodes, rfl⟩

theorem declared?_prune (h : m.prune root = .ok p) (hs : m.declared? id = some s) :
    (m.Reaches root id → p.declared? id = some s) ∧ (¬ m.Reaches root id → p.declared? id = none) := by
  obtain ⟨nodes, hnodes, rfl⟩ := prune_ok h
  have hiff : id ∈ nodes ↔ _ := mem_walk_iff hnodes
  rw [declares_iff.2 ⟨s, hs⟩] at hiff
  rw [declared?_eq] at hs
  rw [declared?_eq, keep, List.find?_filter]
  constructor
  · intro hreach
    have hid : id ∈ nodes := hiff.2 ⟨rfl, hreach⟩
    rw [← hs]
    congr 1
    funext x
    by_cases hx : x.id = id
    · simp [hx, hid]
    · simp [hx]
  · intro hreach
    rw [List.find?_eq_none]
    intro x _
    by_cases hx : x.id = id
    · simp only [hx, List.contains_iff_mem, beq_self_eq_true, and_true, decide_eq_true_eq]
      exact fun hid => hreach (hiff.1 hid).2
    · simp [hx]

theorem declared?_prune_none (h : m.prune root = .ok p) (hs : m.declared? id = none) :
    p.declared? id = none := by
  obtain ⟨nodes, hnodes, rfl⟩ := prune_ok h
  rw [declared?_eq, List.find?_eq_none] at *
  intro x hx
  exact hs x (List.mem_of_mem_filter hx)

/-- **What an id resolves to after pruning**: the same shape, if it is reached or not declared. -/
theorem get?_prune (h : m.prune root = .ok p) (hid : m.declares id.root = true → m.Reaches root id.root) :
    p.get? id = m.get? id := by
  unfold get?
  cases hs : m.declared? id.root with
  | none => rw [declared?_prune_none h hs]
  | some s => rw [(declared?_prune h hs).1 (hid (declares_iff.2 ⟨s, hs⟩))]

/-- **In the pruned model every shape is reached.** -/
theorem prune_reaches (h : m.prune root = .ok p) (hid : m.Reaches root id) : p.Reaches root id := by
  induction hid with
  | refl => exact .refl
  | @tail b c hpath href ih =>
    obtain ⟨s, hs, target, htarget, next, hnext, rfl⟩ := href
    have hbroot : b.root = b := Reaches.root_eq hpath
    have hb : p.get? b = some s := by
      rw [get?_prune h, hs]
      intro _
      rw [hbroot]
      exact hpath
    have hc : p.get? target = some next := by
      rw [get?_prune h, hnext]
      intro _
      rw [← (get?_id hnext).1]
      exact hpath.tail ⟨s, hs, target, htarget, next, hnext, rfl⟩
    exact ih.tail ⟨s, hb, target, htarget, next, hc, rfl⟩

end ClientGen.Model
