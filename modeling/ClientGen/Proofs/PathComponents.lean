import ClientGen.Manifest
import ClientGen.Proofs.IdText
import Mathlib.Data.List.DropRight
import Mathlib.Data.List.Infix
import Mathlib.Order.Compare

/-!
# What paths denote

A path is a text, and it denotes the list of its components. Its parent, its ancestors, its file name and a path joined
to it are defined on the text, with separators and dots that count nothing; here they are told on the components.

* `Path.split_append`: a separator and more text after a path adds pieces and changes nothing before.
* `Path.parent?_cases`: the parent is the path without the last component.
* `Path.mem_ancestors`: the ancestors are the proper beginnings of the components, the empty one apart.
* `Path.components_join`: a name joined to a path is one more component.
* `Path.isPython_iff`: a Python file is one with a name that ends in `.py` after something else.
* `Location.compare_eq_iff`: locations are the same if their components are.
-/

namespace ClientGen.Path

open Text (pieces)

variable {cs q : List Char} {p : Path}

/-! ### Pieces between separators -/

theorem pieces_append (xs ys : List Char) : pieces '/' (xs ++ '/' :: ys) = pieces '/' xs ++ pieces '/' ys := by
  induction xs with
  | nil => rfl
  | cons c xs ih =>
    rw [List.cons_append, pieces, pieces, ih]
    split
    · rfl
    · obtain ⟨head, tail, hpieces⟩ := List.exists_cons_of_ne_nil (Text.pieces_ne_nil '/' xs)
      rw [hpieces]
      rfl

theorem not_mem_of_mem_pieces {piece cs : List Char} (h : piece ∈ pieces '/' cs) : '/' ∉ piece := by
  induction cs generalizing piece with
  | nil =>
    rw [List.mem_singleton.1 h]
    exact List.not_mem_nil
  | cons c cs ih =>
    rw [pieces] at h
    split at h
    · rcases List.mem_cons.1 h with rfl | h
      · exact List.not_mem_nil
      · exact ih h
    · next hc =>
      obtain ⟨head, tail, hpieces⟩ := List.exists_cons_of_ne_nil (Text.pieces_ne_nil '/' cs)
      rw [hpieces] at h ih
      rcases List.mem_cons.1 h with rfl | h
      · rw [List.mem_cons, not_or]
        exact ⟨Ne.symm hc, ih List.mem_cons_self⟩
      · exact ih (List.mem_cons_of_mem _ h)

theorem joinPieces_cons {p : List Char} {ps : List (List Char)} (h : ps ≠ []) :
    joinPieces (p :: ps) = p ++ '/' :: joinPieces ps := by
  cases ps with
  | nil => exact absurd rfl h
  | cons q qs => rfl

theorem joinPieces_eq (ps : List (List Char)) : joinPieces ps = ['/'].intercalate ps := by
  induction ps with
  | nil => rfl
  | cons p ps ih =>
    cases ps with
    | nil => simp [joinPieces]
    | cons q qs => rw [joinPieces_cons (by simp), ih, List.intercalate_cons_cons]; simp

theorem joinPieces_pieces (cs : List Char) : joinPieces (pieces '/' cs) = cs := by
  rw [joinPieces_eq, Text.pieces_eq_splitOn, List.intercalate_splitOn]

theorem pieces_joinPieces {ps : List (List Char)} (hne : ps ≠ []) (h : ∀ p ∈ ps, '/' ∉ p) :
    pieces '/' (joinPieces ps) = ps := by
  rw [joinPieces_eq, Text.pieces_eq_splitOn]
  exact List.splitOn_intercalate '/' h hne

theorem joinPieces_append {ps qs : List (List Char)} (hps : ps ≠ []) (hqs : qs ≠ []) :
    joinPieces (ps ++ qs) = joinPieces ps ++ '/' :: joinPieces qs := by
  induction ps with
  | nil => exact absurd rfl hps
  | cons p ps ih =>
    rw [List.cons_append, joinPieces_cons (by simp [hqs])]
    cases ps with
    | nil => rfl
    | cons p' ps =>
      have hcons : joinPieces (p :: p' :: ps) = p ++ '/' :: joinPieces (p' :: ps) := rfl
      rw [ih (by simp), hcons, List.append_assoc, List.cons_append]

/-! ### The text of a path -/

/-- The texts without a separator or a dot of their own in front. -/
structure Relative (cs : List Char) : Prop where
  noRoot : ∀ rest, cs ≠ '/' :: rest
  noDot : cs ≠ ['.']
  noHere : ∀ rest, cs ≠ '.' :: '/' :: rest

/-- The ways in which a path may begin. -/
inductive Form : List Char → Prop
  | root (rest : List Char) : Form ('/' :: rest)
  | dot : Form ['.']
  | here (rest : List Char) : Form ('.' :: '/' :: rest)
  | relative {cs : List Char} : Relative cs → Form cs

theorem form (cs : List Char) : Form cs := by
  by_cases h : Relative cs
  · exact .relative h
  · by_cases hroot : ∃ rest, cs = '/' :: rest
    · obtain ⟨rest, rfl⟩ := hroot
      exact .root rest
    · by_cases hdot : cs = ['.']
      · exact hdot ▸ .dot
      · by_cases hhere : ∃ rest, cs = '.' :: '/' :: rest
        · obtain ⟨rest, rfl⟩ := hhere
          exact .here rest
        · exact absurd ⟨not_exists.1 hroot, hdot, not_exists.1 hhere⟩ h

theorem split_relative (h : Relative cs) : split cs = ([], pieces '/' cs) := by
  unfold split
  split
  · exact absurd rfl (h.noRoot _)
  · exact absurd rfl h.noDot
  · exact absurd rfl (h.noHere _)
  · rfl

theorem split_join (cs : List Char) : (split cs).1 ++ joinPieces (split cs).2 = cs := by
  cases form cs with
  | root rest => exact congrArg ('/' :: ·) (joinPieces_pieces rest)
  | dot => rfl
  | here rest =>
    change '.' :: joinPieces ([] :: pieces '/' rest) = _
    rw [joinPieces_cons (Text.pieces_ne_nil '/' rest), joinPieces_pieces]
    rfl
  | relative h =>
    rw [split_relative h]
    exact joinPieces_pieces cs

theorem Relative.append (h : Relative cs) (hne : cs ≠ []) (ys : List Char) : Relative (cs ++ '/' :: ys) := by
  obtain ⟨c, cs, rfl⟩ := List.exists_cons_of_ne_nil hne
  refine ⟨fun rest heq => ?_, fun heq => ?_, fun rest heq => ?_⟩
  · exact h.noRoot cs (by rw [(List.cons.inj heq).1])
  · simpa using congrArg List.length heq
  · obtain ⟨rfl, hrest⟩ := List.cons.inj heq
    cases cs with
    | nil => exact h.noDot rfl
    | cons d cs => exact h.noHere cs (by rw [(List.cons.inj hrest).1])

/-- **What stands after a separator** adds pieces, and changes nothing before. -/
theorem split_append (hne : cs ≠ []) (ys : List Char) :
    split (cs ++ '/' :: ys) = ((split cs).1, (split cs).2 ++ pieces '/' ys) := by
  cases form cs with
  | root rest => exact congrArg (Prod.mk _) (pieces_append rest ys)
  | dot => rfl
  | here rest => exact congrArg (fun ps => (['.'], [] :: ps)) (pieces_append rest ys)
  | relative h => rw [split_relative h, split_relative (h.append hne ys), pieces_append]

theorem not_mem_of_mem_split {cs piece : List Char} (h : piece ∈ (split cs).2) : '/' ∉ piece := by
  have hnil : '/' ∉ ([] : List Char) := List.not_mem_nil
  cases form cs with
  | root rest => exact not_mem_of_mem_pieces h
  | dot =>
    rw [List.mem_singleton.1 h]
    exact hnil
  | here rest =>
    rcases List.mem_cons.1 h with rfl | h
    · exact hnil
    · exact not_mem_of_mem_pieces h
  | relative hrel =>
    rw [split_relative hrel] at h
    exact not_mem_of_mem_pieces h

/-- The component that the head of a path stands for. -/
def leading (head : List Char) : List Component :=
  match head with
  | ['/'] => [.root]
  | ['.'] => [.here]
  | _ => []

/-- The components that pieces stand for. -/
def named (ps : List (List Char)) : List Component := (ps.filter fun piece => !isFiller piece).map pieceComponent

/-- What a text denotes. -/
def denoted (cs : List Char) : List Component := leading (split cs).1 ++ named (split cs).2

theorem components_eq (p : Path) : p.components = denoted p.text.toList := rfl

theorem components_ofList (cs : List Char) : (⟨String.ofList cs⟩ : Path).components = denoted cs := by
  rw [components_eq, String.toList_ofList]

theorem named_append (ps qs : List (List Char)) : named (ps ++ qs) = named ps ++ named qs := by
  simp [named]

theorem named_singleton (h : isFiller q = false) : named [q] = [pieceComponent q] := by
  simp [named, h]

theorem named_filler (h : isFiller q = true) : named [q] = [] := by
  simp [named, h]

theorem denoted_append (hne : cs ≠ []) (ys : List Char) :
    denoted (cs ++ '/' :: ys) = denoted cs ++ named (pieces '/' ys) := by
  unfold denoted
  rw [split_append hne, named_append, List.append_assoc]

theorem denoted_head (cs : List Char) : denoted (split cs).1 = leading (split cs).1 := by
  cases form cs with
  | root rest | dot | here rest => rfl
  | relative h =>
    rw [split_relative h]
    rfl

/-! ### Lengths -/

theorem length_leading_le (head : List Char) : (leading head).length ≤ head.length := by
  unfold leading
  split <;> simp

theorem length_named_le (ps : List (List Char)) : (named ps).length ≤ (joinPieces ps).length := by
  induction ps with
  | nil => exact Nat.le_refl _
  | cons p ps ih =>
    have hp : (named [p]).length ≤ p.length := by
      cases hfiller : isFiller p with
      | true => simp [named_filler hfiller]
      | false =>
        have hne : p ≠ [] := by
          rintro rfl
          cases hfiller
        rw [named_singleton hfiller]
        exact List.length_pos_of_ne_nil hne
    have hcons : named (p :: ps) = named [p] ++ named ps := named_append [p] ps
    rw [hcons, List.length_append]
    by_cases hps : ps = []
    · subst hps
      exact hp
    · rw [joinPieces_cons hps, List.length_append, List.length_cons]
      omega

theorem length_components_le (p : Path) : p.components.length ≤ p.text.length := by
  have htext : p.text.length = ((split p.text.toList).1 ++ joinPieces (split p.text.toList).2).length := by
    rw [split_join, String.length_toList]
  rw [htext, components_eq, denoted, List.length_append, List.length_append]
  exact Nat.add_le_add (length_leading_le _) (length_named_le _)

theorem pieces_eq_nil_cons {tail : List (List Char)} (h : pieces '/' cs = [] :: tail) :
    cs = [] ∨ ∃ rest, cs = '/' :: rest := by
  cases cs with
  | nil => exact .inl rfl
  | cons c cs =>
    rw [pieces] at h
    split at h
    · next hc => exact .inr ⟨cs, by rw [hc]⟩
    · obtain ⟨head, tail', hpieces⟩ := List.exists_cons_of_ne_nil (Text.pieces_ne_nil '/' cs)
      rw [hpieces] at h
      cases h

/-- Only the empty text denotes no component. -/
theorem denoted_eq_nil_iff : denoted cs = [] ↔ cs = [] := by
  constructor
  · intro h
    cases form cs with
    | root rest | dot | here rest => cases h
    | relative hrel =>
      cases cs with
      | nil => rfl
      | cons c cs =>
        -- the first piece is a name, since the text begins with neither a separator nor a dot by itself
        obtain ⟨head, tail, hpieces⟩ := List.exists_cons_of_ne_nil (Text.pieces_ne_nil '/' cs)
        have hc : c ≠ '/' := fun hc => hrel.noRoot cs (by rw [hc])
        have hfirst : pieces '/' (c :: cs) = (c :: head) :: tail := by
          rw [pieces, if_neg hc, hpieces]
        have hfiller : isFiller (c :: head) = false := by
          cases head with
          | cons d head => simp [isFiller]
          | nil =>
            rcases pieces_eq_nil_cons hpieces with rfl | ⟨rest, rfl⟩
            · simpa [isFiller] using hrel.noDot
            · simpa [isFiller] using hrel.noHere rest
        have hnamed : named (pieces '/' (c :: cs)) = pieceComponent (c :: head) :: named tail := by
          rw [hfirst]
          simp [named, hfiller]
        rw [denoted, split_relative hrel, hnamed] at h
        cases h
  · rintro rfl
    rfl

theorem components_eq_nil_iff : p.components = [] ↔ p.text = "" := by
  rw [components_eq, denoted_eq_nil_iff, String.toList_eq_nil_iff]

/-! ### The last piece that counts -/

theorem dropFiller_concat (ps : List (List Char)) (q : List Char) :
    dropFiller (ps ++ [q]) = if isFiller q then dropFiller ps else ps ++ [q] := List.rdropWhile_concat isFiller ps q

/-- No piece counts, or there is a last one that does, and those after it are dropped. -/
theorem dropFiller_cases (ps : List (List Char)) :
    (dropFiller ps = [] ∧ named ps = []) ∨
    ∃ kept q fillers, ps = kept ++ q :: fillers ∧ named ps = named kept ++ [pieceComponent q] ∧
      dropFiller ps = kept ++ [q] := by
  induction ps using List.reverseRecOn with
  | nil => exact .inl ⟨rfl, rfl⟩
  | append_singleton ps r ih =>
    rw [dropFiller_concat]
    cases hr : isFiller r with
    | false => exact .inr ⟨ps, r, [], rfl, by rw [named_append, named_singleton hr], rfl⟩
    | true =>
      rw [if_pos rfl, named_append, named_filler hr, List.append_nil]
      rcases ih with hnone | ⟨kept, q, fillers, rfl, hnamed, hdrop⟩
      · exact .inl hnone
      · exact .inr ⟨kept, q, fillers ++ [r], by simp, hnamed, hdrop⟩

theorem named_dropFiller (ps : List (List Char)) : named (dropFiller ps) = named ps := by
  induction ps using List.reverseRecOn with
  | nil => rfl
  | append_singleton ps r ih =>
    rw [dropFiller_concat]
    cases hr : isFiller r with
    | false => rfl
    | true => rw [if_pos rfl, ih, named_append, named_filler hr, List.append_nil]

/-! ### Parents -/

/-- Cutting the text of a path after one of its pieces leaves the pieces before. -/
theorem split_cut {ps rest : List (List Char)} (h : (split cs).2 = ps ++ rest) (hps : named ps ≠ []) (hrest : rest ≠ []) :
    split ((split cs).1 ++ joinPieces ps) = ((split cs).1, ps) := by
  have hne : ps ≠ [] := by
    rintro rfl
    exact hps rfl
  have hcut : (split cs).1 ++ joinPieces ps ≠ [] := by
    intro hnil
    have hjoin : joinPieces ps = [] := (List.append_eq_nil_iff.1 hnil).2
    have hlength := length_named_le ps
    rw [hjoin, List.length_nil, Nat.le_zero, List.length_eq_zero_iff] at hlength
    exact hps hlength
  have hcs : cs = ((split cs).1 ++ joinPieces ps) ++ '/' :: joinPieces rest := by
    rw [List.append_assoc, ← joinPieces_append hne hrest, ← h, split_join]
  have hpieces : pieces '/' (joinPieces rest) = rest := by
    refine pieces_joinPieces hrest fun p hp => ?_
    have hmem : p ∈ (split cs).2 := by
      rw [h]
      exact List.mem_append_right _ hp
    exact not_mem_of_mem_split hmem
  have hsplit := split_append hcut (joinPieces rest)
  rw [← hcs, hpieces] at hsplit
  have hfst := congrArg Prod.fst hsplit
  have hsnd := congrArg Prod.snd hsplit
  rw [h] at hsnd
  exact Prod.ext hfst.symm (List.append_cancel_right hsnd).symm

theorem denoted_cut {cs q : List Char} {kept fillers : List (List Char)} (h : (split cs).2 = kept ++ q :: fillers) :
    denoted ((split cs).1 ++ joinPieces (dropFiller kept)) = leading (split cs).1 ++ named kept := by
  by_cases hnamed : named kept = []
  · have hdrop : dropFiller kept = [] := by
      rcases dropFiller_cases kept with ⟨hdrop, -⟩ | ⟨kept', q', -, -, hkept, -⟩
      · exact hdrop
      · rw [hkept] at hnamed
        simp at hnamed
    rw [hdrop, hnamed, List.append_nil]
    change denoted ((split cs).1 ++ []) = _
    rw [List.append_nil, denoted_head]
  · -- the pieces that are cut off begin with the fillers in front of `q`
    obtain ⟨rest, hrest⟩ : ∃ rest, kept = dropFiller kept ++ rest :=
      (List.rdropWhile_prefix isFiller kept).imp fun _ => Eq.symm
    have hpieces : (split cs).2 = dropFiller kept ++ (rest ++ q :: fillers) := by
      rw [h, ← List.append_assoc, ← hrest]
    have hsplit := split_cut hpieces (by rwa [named_dropFiller]) (by simp)
    rw [denoted, hsplit, named_dropFiller]

theorem parent?_of_named {kept : List (List Char)} (h : dropFiller (split p.text.toList).2 = kept ++ [q]) :
    p.parent? = some ⟨String.ofList ((split p.text.toList).1 ++ joinPieces (dropFiller kept))⟩ := by
  obtain ⟨x, xs, hx⟩ := List.exists_cons_of_ne_nil (l := kept ++ [q]) (by simp)
  have hkept : (x :: xs).dropLast = kept := by
    rw [← hx, List.dropLast_concat]
  unfold parent?
  dsimp only
  rw [h, hx]
  dsimp only
  rw [hkept]

/-- **The parent** is the path without its last component. Only the paths without components and the root have none. -/
theorem parent?_cases (p : Path) :
    ((p.components = [] ∨ p.components = [.root]) ∧ p.parent? = none) ∨
    ∃ dir c, p.parent? = some dir ∧ p.components = dir.components ++ [c] := by
  rcases dropFiller_cases (split p.text.toList).2 with ⟨hdrop, hnamed⟩ | ⟨kept, q, fillers, hps, hnamed, hdrop⟩
  · have hcomponents : p.components = leading (split p.text.toList).1 := by
      rw [components_eq, denoted, hnamed, List.append_nil]
    have hparent : p.parent? = if (split p.text.toList).1 == ['.'] then some ⟨""⟩ else none := by
      unfold parent?
      dsimp only
      rw [hdrop]
    rw [hcomponents, hparent]
    clear hdrop hnamed hcomponents hparent
    generalize p.text.toList = cs
    cases form cs with
    | root rest => exact .inl ⟨.inr rfl, rfl⟩
    | dot | here rest => exact .inr ⟨⟨""⟩, .here, rfl, rfl⟩
    | relative h =>
      rw [split_relative h]
      exact .inl ⟨.inl rfl, rfl⟩
  · refine .inr ⟨_, pieceComponent q, parent?_of_named hdrop, ?_⟩
    rw [components_ofList, denoted_cut hps, components_eq, denoted, hnamed, List.append_assoc]

/-! ### Ancestors -/

/-- The components are those of a directory that holds the path, at any depth, other than the one that it is relative
to. -/
structure Above (dir : List Component) (p : Path) : Prop where
  nonempty : dir ≠ []
  begins : dir <+: p.components
  proper : dir ≠ p.components

theorem above_iff_of_concat {cs dir : List Component} {c : Component} (h : p.components = cs ++ [c]) :
    Above dir p ↔ dir ≠ [] ∧ dir <+: cs := by
  constructor
  · rintro ⟨hne, hbegins, hproper⟩
    rw [h] at hbegins hproper
    exact ⟨hne, (List.prefix_concat_iff.1 hbegins).resolve_left hproper⟩
  · rintro ⟨hne, hbegins⟩
    refine ⟨hne, h ▸ hbegins.trans (List.prefix_append cs [c]), ?_⟩
    rintro rfl
    have hlength := hbegins.length_le
    rw [h, List.length_append, List.length_singleton] at hlength
    omega

theorem not_above_of_length_le {dir : List Component} (h : p.components.length ≤ 1) : ¬ Above dir p := by
  rintro ⟨hne, hbegins, hproper⟩
  have hpos := List.length_pos_of_ne_nil hne
  exact hproper (hbegins.eq_of_length_le (by omega))

theorem ancestorsWithin_above : ∀ (fuel : Nat) (p : Path), p.components.length ≤ fuel → ∀ dir : List Component,
    (∃ d ∈ ancestorsWithin fuel p, d.components = dir) ↔ Above dir p := by
  intro fuel
  -- each parent has one component less
  induction fuel with
  | zero =>
    intro p hfuel dir
    refine iff_of_false ?_ (not_above_of_length_le (by omega))
    rintro ⟨d, ⟨⟩, -⟩
  | succ fuel ih =>
    intro p hfuel dir
    rw [ancestorsWithin]
    rcases parent?_cases p with ⟨hcomponents, hparent⟩ | ⟨d, c, hparent, hcomponents⟩
    · rw [hparent]
      refine iff_of_false ?_ (not_above_of_length_le ?_)
      · rintro ⟨d, ⟨⟩, -⟩
      · rcases hcomponents with hcomponents | hcomponents <;> simp [hcomponents]
    · rw [hparent, above_iff_of_concat hcomponents]
      rw [hcomponents, List.length_append, List.length_singleton] at hfuel
      dsimp only
      split
      · next hempty =>
        -- the path has one component, and is relative
        have hnil : d.components = [] := components_eq_nil_iff.2 (String.isEmpty_iff.1 hempty)
        rw [hnil, List.prefix_nil]
        refine iff_of_false ?_ fun h => h.1 h.2
        rintro ⟨d, ⟨⟩, -⟩
      · next hempty =>
        have hne : d.components ≠ [] := fun hnil => hempty (String.isEmpty_iff.2 (components_eq_nil_iff.1 hnil))
        rw [List.exists_mem_cons_iff, ih d (by omega) dir]
        constructor
        · rintro (rfl | h)
          · exact ⟨hne, List.prefix_refl _⟩
          · exact ⟨h.nonempty, h.begins⟩
        · rintro ⟨hdir, hbegins⟩
          by_cases heq : d.components = dir
          · exact .inl heq
          · exact .inr ⟨hdir, hbegins, Ne.symm heq⟩

/-- **The ancestors** are the proper beginnings of the components. -/
theorem mem_ancestors {dir : List Component} : (∃ d ∈ p.ancestors, d.components = dir) ↔ Above dir p :=
  ancestorsWithin_above _ p (length_components_le p) dir

/-! ### Joined names -/

/-- **A name joined to a path** that is not empty is one more component. -/
theorem components_join {base : Path} {name : String} (hbase : base.text ≠ "") (hsep : '/' ∉ name.toList)
    (hfiller : isFiller name.toList = false) :
    (base.join ⟨name⟩).components = base.components ++ [pieceComponent name.toList] := by
  have hne : base.text.toList ≠ [] := by simpa using hbase
  have hname : named (pieces '/' name.toList) = [pieceComponent name.toList] := by
    have hpieces : pieces '/' (joinPieces [name.toList]) = [name.toList] :=
      pieces_joinPieces (by simp) (by simpa using hsep)
    change pieces '/' name.toList = [name.toList] at hpieces
    rw [hpieces, named_singleton hfiller]
  have habsolute : (⟨name⟩ : Path).isAbsolute = false := by
    unfold isAbsolute
    rw [beq_eq_false_iff_ne]
    intro hhead
    exact hsep (List.mem_of_mem_head? hhead)
  unfold join
  rw [habsolute, Bool.false_or, if_neg (by simpa using hbase)]
  split
  · next hlast =>
    -- the separator at the end is the one in front of the name
    obtain ⟨cs, hcs⟩ : ∃ cs, base.text.toList = cs ++ ['/'] := List.getLast?_eq_some_iff.1 (eq_of_beq hlast)
    rw [components_eq, components_eq, String.toList_append, hcs, List.append_assoc]
    change denoted (cs ++ '/' :: name.toList) = _
    cases cs with
    | nil =>
      change [Component.root] ++ named (pieces '/' name.toList) = _
      rw [hname]
      rfl
    | cons c cs =>
      rw [denoted_append (by simp), denoted_append (by simp), hname, List.append_assoc]
      rfl
  · rw [components_eq, components_eq, String.toList_append, String.toList_append, List.append_assoc]
    change denoted (base.text.toList ++ '/' :: name.toList) = _
    rw [denoted_append hne, hname]

/-! ### File names -/

theorem fileName?_eq_some_iff {name : List Char} :
    p.fileName? = some name ↔ p.components.getLast? = some (.name (String.ofList name)) := by
  unfold fileName?
  rw [components_eq, denoted]
  rcases dropFiller_cases (split p.text.toList).2 with ⟨hdrop, hnamed⟩ | ⟨kept, q, -, -, hnamed, hdrop⟩
  · rw [hdrop, hnamed, List.append_nil]
    clear hdrop hnamed
    generalize p.text.toList = cs
    cases form cs with
    | root rest | dot | here rest => simp [split, leading]
    | relative h => simp [split_relative h, leading]
  · rw [hdrop, hnamed, ← List.append_assoc, List.getLast?_concat, List.getLast?_concat]
    dsimp only
    unfold pieceComponent
    split <;> simp [String.ofList_inj]

/-- The name of the file ends in `.py`, after something else. -/
def IsPython (p : Path) : Prop := ∃ stem, stem ≠ "" ∧ p.components.getLast? = some (.name (stem ++ ".py"))

theorem extension?_eq_some_iff {ext : String} :
    p.extension? = some ext ↔ ∃ name, p.fileName? = some name ∧
      ∃ stem, stem ≠ [] ∧ '.' ∉ ext.toList ∧ name = stem ++ '.' :: ext.toList := by
  unfold extension?
  rw [Option.bind_eq_bind, Option.bind_eq_some_iff]
  refine exists_congr fun name => and_congr_right fun _ => ?_
  constructor
  · intro h
    have hname : name.reverse.takeWhile (· != '.') ++ name.reverse.dropWhile (· != '.') = name.reverse :=
      List.takeWhile_append_dropWhile
    have hafter : '.' ∉ name.reverse.takeWhile (· != '.') := fun hmem => by
      simpa using List.mem_takeWhile_imp hmem
    have hdot := List.head?_dropWhile_not (· != '.') name.reverse
    dsimp only at h
    generalize name.reverse.takeWhile (· != '.') = after at *
    generalize name.reverse.dropWhile (· != '.') = before at *
    split at h
    · cases h
    · cases h
    · next hnil hsingle =>
      cases h
      -- a dot, and at least one more character in front of it
      obtain ⟨c, before, rfl⟩ := List.exists_cons_of_ne_nil hnil
      obtain rfl : c = '.' := by simpa using hdot
      refine ⟨before.reverse, ?_, by simpa using hafter, ?_⟩
      · intro hbefore
        exact hsingle '.' (by rw [List.reverse_eq_nil_iff.1 hbefore])
      · rw [← List.reverse_reverse name, ← hname]
        simp
  · rintro ⟨stem, hstem, hext, rfl⟩
    have hall : ∀ c ∈ ext.toList.reverse, (c != '.') = true := by
      intro c hc
      rw [bne_iff_ne]
      rintro rfl
      exact hext (List.mem_reverse.1 hc)
    have hreverse : (stem ++ '.' :: ext.toList).reverse = ext.toList.reverse ++ '.' :: stem.reverse := by simp
    rw [hreverse, List.takeWhile_append_of_pos hall, List.dropWhile_append_of_pos hall]
    obtain ⟨c, rest, hrest⟩ := List.exists_cons_of_ne_nil (l := stem.reverse) (by simpa using hstem)
    rw [hrest]
    simp

/-- **A Python file** is known by its last component. -/
theorem isPython_iff : Manifest.isPython p = true ↔ p.IsPython := by
  unfold Manifest.isPython IsPython
  rw [beq_iff_eq, extension?_eq_some_iff]
  constructor
  · rintro ⟨name, hname, stem, hstem, -, rfl⟩
    refine ⟨String.ofList stem, by simpa using hstem, ?_⟩
    rw [fileName?_eq_some_iff.1 hname]
    simp
  · rintro ⟨stem, hstem, hlast⟩
    refine ⟨stem.toList ++ '.' :: "py".toList, fileName?_eq_some_iff.2 ?_, stem.toList, by simpa using hstem, by decide,
      rfl⟩
    have htext : stem ++ ".py" = String.ofList (stem.toList ++ '.' :: "py".toList) := by
      rw [← String.toList_inj]
      simp
    rw [hlast, htext]

/-! ### The order of paths -/

/-- The name of a component that has one. -/
def Component.text : Component → String
  | .name s => s
  | _ => ""

instance : Ord Component := ⟨Component.compare⟩

theorem Component.compare_eq_lex :
    (Ord.compare : Component → Component → Ordering) = compareLex (compareOn rank) (compareOn text) := by
  funext a b
  cases a <;> cases b <;> with_unfolding_all rfl

instance : Std.TransOrd Component := by
  have h : Std.TransCmp (compareLex (compareOn Component.rank) (compareOn Component.text)) := inferInstance
  rwa [← Component.compare_eq_lex] at h

instance : Std.LawfulEqOrd Component where
  eq_of_compare {a b} h := by
    rw [Component.compare_eq_lex, compareLex_eq_eq] at h
    obtain ⟨hrank, htext⟩ := h
    simp only [compareOn, Std.LawfulEqOrd.compare_eq_iff_eq] at hrank htext
    cases a <;> cases b <;> simp_all [Component.rank, Component.text]

theorem compareComponents_eq (as bs : List Component) : compareComponents as bs = compare as bs := by
  induction as generalizing bs with
  | nil => cases bs <;> rfl
  | cons a as ih =>
    cases bs with
    | nil => rfl
    | cons b bs => rw [compareComponents, ih, List.compare_cons_cons]; rfl

end ClientGen.Path

namespace ClientGen.Location

theorem compare_eq : (compare : Location → Location → Ordering) = compareOn Location.components := by
  funext a b
  exact Path.compareComponents_eq a.components b.components

instance : Std.TransOrd Location := by
  have h : Std.TransCmp (compareOn Location.components) := inferInstance
  rwa [← compare_eq] at h

/-- **Locations are the same** if their components are. -/
theorem compare_eq_iff {a b : Location} : compare a b = .eq ↔ a.path.components = b.path.components := by
  rw [compare_eq, compareOn, Std.LawfulEqOrd.compare_eq_iff_eq, a.components_eq, b.components_eq]

end ClientGen.Location
