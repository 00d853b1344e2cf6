import ClientGen.Proofs.FixedNames
import ClientGen.Proofs.SymbolForms
import Mathlib

/-!
# Which names are legal in Python

Names of shapes and members are identifiers, but underscores in front are dropped by the naming styles, so the name
that is declared may start with a digit or be empty. Classes and attributes avoid the keywords; methods do not, nor do
variants.

* `joinWords_first` and `pascalChars_first`: a name in either style starts with the first character of the given name
  that is no underscore.
* `escape_isIdentifier` and `escape_not_mem`: an underscore after a taken name makes it a legal one.
* `className_legal_iff`, `methodName_legal_iff`, `clientName_legal_iff`, `variantName_legal_iff`: which declared names are
  legal.
* `defaultSymbol_legal_iff`: the same of the symbols that shapes have by default, and of the attributes of members.
-/

namespace ClientGen

namespace Text

/-- The first character that is no underscore. -/
def initial? (name : String) : Option Char := name.toList.find? (· != '_')

/-- Is the first character that is no underscore a letter? -/
def startsWithLetter (name : String) : Bool := (initial? name).any Char.isAlpha

/-! ### Characters of identifiers -/

theorem isAscii_of_tail {c : Char} (h : isIdentifierTail c = true) : c.toNat < 128 := by
  simp only [isIdentifierTail, Char.isAlpha, Char.isUpper, Char.isLower, Char.isDigit, Bool.or_eq_true,
    Bool.and_eq_true, decide_eq_true_eq, beq_iff_eq, ge_iff_le, UInt32.le_iff_toNat_le] at h
  show c.val.toNat < 128
  rcases h with ((⟨-, h⟩ | ⟨-, h⟩) | ⟨-, h⟩) | rfl
  · exact lt_of_le_of_lt h (by decide)
  · exact lt_of_le_of_lt h (by decide)
  · exact lt_of_le_of_lt h (by decide)
  · decide

theorem tail_classes : ∀ n < 128, isIdentifierTail (Char.ofNat n) = true →
    isAlphanumeric (Char.ofNat n) = (Char.ofNat n != '_') ∧
      isIdentifierTail (Char.ofNat n).toUpper = true ∧ isIdentifierTail (Char.ofNat n).toLower = true ∧
      (isNumeric (Char.ofNat n) = true → (Char.ofNat n).toUpper = Char.ofNat n) := by
  decide +kernel

theorem tail_class {c : Char} (h : isIdentifierTail c = true) :
    isAlphanumeric c = (c != '_') ∧ isIdentifierTail c.toUpper = true ∧ isIdentifierTail c.toLower = true ∧
      (isNumeric c = true → c.toUpper = c) := by
  have hclasses := tail_classes c.toNat (isAscii_of_tail h)
  rw [Char.ofNat_toNat] at hclasses
  exact hclasses h

/-! ### What the styles keep -/

variable {cs : List Char}

theorem all_tail_of_isIdentifier (h : isIdentifier cs = true) : cs.all isIdentifierTail = true := by
  cases cs with
  | nil => rfl
  | cons c rest =>
    obtain ⟨hhead, hrest⟩ := Bool.and_eq_true_iff.1 h
    refine List.all_eq_true.2 fun d hd => ?_
    rcases List.mem_cons.1 hd with rfl | hd
    · rcases Bool.or_eq_true_iff.1 hhead with halpha | hunder
      · simp [isIdentifierTail, halpha]
      · simp [isIdentifierTail, hunder]
    · exact List.all_eq_true.1 hrest d hd

/-- What follows the first character is of no interest if all are characters of identifiers. -/
theorem isIdentifier_of_tail (h : cs.all isIdentifierTail = true) :
    isIdentifier cs = cs.head?.any isIdentifierHead := by
  cases cs with
  | nil => rfl
  | cons c rest =>
    rw [List.all_cons, Bool.and_eq_true] at h
    show (isIdentifierHead c && rest.all isIdentifierTail) = isIdentifierHead c
    rw [h.2, Bool.and_true]

theorem isIdentifier_append {back : List Char} (hback : back.all isIdentifierTail = true) (hcs : cs ≠ []) :
    isIdentifier (cs ++ back) = isIdentifier cs := by
  cases cs with
  | nil => exact absurd rfl hcs
  | cons c rest =>
    show (isIdentifierHead c && (rest ++ back).all isIdentifierTail) = (isIdentifierHead c && rest.all isIdentifierTail)
    rw [List.all_append, hback, Bool.and_true]

/-- Only underscores at the end are taken from an identifier. -/
theorem nameBody_append (h : cs.all isIdentifierTail = true) :
    ∃ trailing, cs = nameBody cs ++ trailing ∧ ∀ c ∈ trailing, c = '_' := by
  refine ⟨(cs.reverse.takeWhile fun c => !isAlphanumeric c).reverse, ?_, fun c hc => ?_⟩
  · have hsplit := congrArg List.reverse
      (List.takeWhile_append_dropWhile (p := fun c => !isAlphanumeric c) (l := cs.reverse))
    rw [List.reverse_append, List.reverse_reverse] at hsplit
    exact hsplit.symm
  · have hmem := List.mem_reverse.1 hc
    have halpha := List.mem_takeWhile_imp hmem
    have htail := List.all_eq_true.1 h c (List.mem_reverse.1 ((List.takeWhile_sublist _).subset hmem))
    rw [(tail_class htail).1] at halpha
    simpa using halpha

theorem nameBody_tail (h : cs.all isIdentifierTail = true) : (nameBody cs).all isIdentifierTail = true := by
  obtain ⟨trailing, hcs, -⟩ := nameBody_append h
  rw [hcs, List.all_append, Bool.and_eq_true] at h
  exact h.1

theorem nameBody_find? (h : cs.all isIdentifierTail = true) :
    (nameBody cs).find? (· != '_') = cs.find? (· != '_') := by
  obtain ⟨trailing, hcs, hunder⟩ := nameBody_append h
  have hnone : trailing.find? (· != '_') = none := by
    rw [List.find?_eq_none]
    intro c hc
    simp [hunder c hc]
  conv_rhs => rw [hcs, List.find?_append, hnone, Option.or_none]

theorem joinWords_tail {style : Char → Char} (hstyle : ∀ c, isIdentifierTail c = true → isIdentifierTail (style c) = true)
    (name : List Char) : ∀ (cs : List Char) (first : Bool) (i : Nat), cs.all isIdentifierTail = true →
    (joinWords style name first i cs).all isIdentifierTail = true := by
  intro cs
  induction cs with
  | nil => exact fun _ _ _ => rfl
  | cons c cs ih =>
    intro first i h
    rw [List.all_cons, Bool.and_eq_true] at h
    have hunder : isIdentifierTail '_' = true := by decide
    unfold joinWords
    dsimp only
    split
    · split
      · exact ih true _ h.2
      · rw [List.all_cons, hunder]
        exact ih true _ h.2
    · split
      · rw [List.all_cons, List.all_cons, hunder, hstyle c h.1]
        exact ih false _ h.2
      · rw [List.all_cons, hstyle c h.1]
        exact ih false _ h.2

/-- **A name in the style of attributes starts with the first character that is no underscore.** -/
theorem joinWords_first (name : List Char) : ∀ (cs : List Char) (i : Nat), cs.all isIdentifierTail = true →
    (joinWords asciiLower name true i cs).head? = (cs.find? (· != '_')).map Char.toLower := by
  intro cs
  induction cs with
  | nil => exact fun _ _ => rfl
  | cons c cs ih =>
    intro i h
    rw [List.all_cons, Bool.and_eq_true] at h
    unfold joinWords
    dsimp only
    rw [(tail_class h.1).1, List.find?_cons]
    cases hc : c != '_' with
    | false => exact ih _ h.2
    | true => rfl

theorem pascalChars_tail : ∀ (cs : List Char) (st : PascalState), cs.all isIdentifierTail = true →
    (pascalChars st cs).all isIdentifierTail = true := by
  intro cs
  induction cs with
  | nil => exact fun _ _ => rfl
  | cons c cs ih =>
    intro st h
    rw [List.all_cons, Bool.and_eq_true] at h
    obtain ⟨-, hupper, hlower, -⟩ := tail_class h.1
    unfold pascalChars
    split
    · exact ih _ h.2
    · split
      · rw [List.all_cons, h.1]
        exact ih _ h.2
      · split
        · rw [List.all_cons, asciiUpper, hupper]
          exact ih _ h.2
        · rw [List.all_cons, asciiLower, hlower]
          exact ih _ h.2

/-- **So does a name in the style of classes.** -/
theorem pascalChars_first : ∀ (cs : List Char) (st : PascalState), st.newWord = true → cs.all isIdentifierTail = true →
    (pascalChars st cs).head? = (cs.find? (· != '_')).map Char.toUpper := by
  intro cs
  induction cs with
  | nil => exact fun _ _ _ => rfl
  | cons c cs ih =>
    intro st hst h
    rw [List.all_cons, Bool.and_eq_true] at h
    obtain ⟨halpha, -, -, hnumeric⟩ := tail_class h.1
    unfold pascalChars
    rw [halpha, List.find?_cons]
    cases hc : c != '_' with
    | false => exact ih _ (by split <;> simp [hst]) h.2
    | true =>
      cases hn : isNumeric c with
      | true => exact congrArg some (hnumeric hn).symm
      | false =>
        rw [hst]
        rfl

/-! ### The styles of identifiers -/

variable {name : String}

theorem snakeCase_tail (h : isIdentifier name.toList = true) :
    (snakeCase name).toList.all isIdentifierTail = true := by
  rw [snakeCase, String.toList_ofList]
  exact joinWords_tail (fun c hc => (tail_class hc).2.2.1) _ _ _ _ (nameBody_tail (all_tail_of_isIdentifier h))

theorem pascalCase_tail (h : isIdentifier name.toList = true) :
    (pascalCase name).toList.all isIdentifierTail = true := by
  rw [pascalCase, String.toList_ofList]
  exact pascalChars_tail _ _ (nameBody_tail (all_tail_of_isIdentifier h))

theorem snakeCase_first (h : isIdentifier name.toList = true) :
    (snakeCase name).toList.head? = (initial? name).map Char.toLower := by
  have htail := all_tail_of_isIdentifier h
  rw [snakeCase, String.toList_ofList, joinWords_first _ _ _ (nameBody_tail htail), nameBody_find? htail]
  rfl

theorem pascalCase_first (h : isIdentifier name.toList = true) :
    (pascalCase name).toList.head? = (initial? name).map Char.toUpper := by
  have htail := all_tail_of_isIdentifier h
  rw [pascalCase, String.toList_ofList, pascalChars_first _ _ rfl (nameBody_tail htail), nameBody_find? htail]
  rfl

/-- What is no underscore starts an identifier, in either case, if it is a letter. -/
theorem any_head_map {style : Char → Char} (hstyle : ∀ c, (style c).isAlpha = c.isAlpha)
    (hunder : ∀ c, style c = '_' → c = '_') (name : String) :
    ((initial? name).map style).any isIdentifierHead = startsWithLetter name := by
  unfold startsWithLetter
  cases hc : initial? name with
  | none => rfl
  | some c =>
    have hne : (style c == '_') = false := by
      rw [beq_eq_false_iff_ne]
      intro hstyled
      have hfound := List.find?_some hc
      rw [hunder c hstyled] at hfound
      cases hfound
    show isIdentifierHead (style c) = c.isAlpha
    rw [isIdentifierHead, hne, Bool.or_false, hstyle]

theorem snakeCase_isIdentifier (h : isIdentifier name.toList = true) :
    isIdentifier (snakeCase name).toList = startsWithLetter name := by
  rw [isIdentifier_of_tail (snakeCase_tail h), snakeCase_first h]
  exact any_head_map Char.isAlpha_toLower_eq_isAlpha (fun c hc => eq_of_toLower hc rfl) name

theorem pascalCase_isIdentifier (h : isIdentifier name.toList = true) :
    isIdentifier (pascalCase name).toList = startsWithLetter name := by
  rw [isIdentifier_of_tail (pascalCase_tail h), pascalCase_first h]
  exact any_head_map Char.isAlpha_toUpper_eq_isAlpha (fun c hc => eq_of_toUpper hc rfl) name

theorem pascalCase_eq_empty (h : isIdentifier name.toList = true) : pascalCase name = "" ↔ initial? name = none := by
  rw [← String.toList_inj, String.toList_empty, ← List.head?_eq_none_iff, pascalCase_first h, Option.map_eq_none_iff]

end Text

namespace Naming

open Text

/-- Names that Python takes for what is defined. -/
def Legal (name : String) : Prop := isIdentifier name.toList = true ∧ name ∉ keywords

instance (name : String) : Decidable (Legal name) := inferInstanceAs (Decidable (_ ∧ _))

variable {name member : String}

/-- An underscore after some names leaves it open only whether they are identifiers. -/
theorem escape_isIdentifier {taken : Bool} (hempty : taken = true → name ≠ "") :
    isIdentifier (if taken then name ++ "_" else name).toList = isIdentifier name.toList := by
  cases taken with
  | false => rfl
  | true =>
    have hne : name.toList ≠ [] := fun h => hempty rfl (String.toList_inj.1 h)
    rw [if_pos rfl, String.toList_append]
    exact isIdentifier_append rfl hne

theorem escape_not_mem {taken : Bool} (hkeyword : name ∈ keywords → taken = true) :
    (if taken then name ++ "_" else name) ∉ keywords := by
  have hlast : ∀ k ∈ keywords, k.toList.getLast? ≠ some '_' := by decide +kernel
  cases taken with
  | false =>
    intro hmem
    cases hkeyword hmem
  | true =>
    intro hmem
    exact hlast _ hmem (by simp)

theorem ne_empty_of_taken {others : List String} (hothers : "" ∉ others)
    (h : (keywords.contains name || others.contains name) = true) : name ≠ "" := by
  rintro rfl
  rcases Bool.or_eq_true_iff.1 h with h | h
  · exact absurd (List.contains_iff_mem.1 h) (by decide)
  · exact hothers (List.contains_iff_mem.1 h)

theorem className_isIdentifier (h : isIdentifier name.toList = true) :
    isIdentifier (className name).toList = startsWithLetter name := by
  rw [← pascalCase_isIdentifier h]
  unfold className
  exact escape_isIdentifier (ne_empty_of_taken (by decide))

theorem className_not_keyword (name : String) : className name ∉ keywords := by
  unfold className
  refine escape_not_mem fun hmem => ?_
  rw [List.contains_iff_mem.2 hmem, Bool.true_or]

/-- **Classes avoid the keywords**: the name is legal unless the styled one starts with a digit or is empty. -/
theorem className_legal_iff (h : isIdentifier name.toList = true) :
    Legal (className name) ↔ startsWithLetter name = true := by
  unfold Legal
  rw [className_isIdentifier h, and_iff_left (className_not_keyword name)]

/-- **So do attributes.** -/
theorem memberName_legal_iff (h : isIdentifier name.toList = true) :
    Legal (memberName name) ↔ startsWithLetter name = true := by
  have hkeyword : memberName name ∉ keywords := by
    unfold memberName
    refine escape_not_mem fun hmem => ?_
    rw [List.contains_iff_mem.2 hmem, Bool.true_or]
  have hidentifier : isIdentifier (memberName name).toList = isIdentifier (snakeCase name).toList := by
    unfold memberName
    refine escape_isIdentifier fun htaken hempty => ?_
    rw [hempty] at htaken
    exact absurd htaken (by decide)
  unfold Legal
  rw [hidentifier, snakeCase_isIdentifier h, and_iff_left hkeyword]

theorem methodName_legal_iff (h : isIdentifier name.toList = true) :
    Legal (snakeCase name) ↔ startsWithLetter name = true ∧ snakeCase name ∉ keywords := by
  unfold Legal
  rw [snakeCase_isIdentifier h]

theorem className_eq_empty (h : isIdentifier name.toList = true) : className name = "" ↔ initial? name = none := by
  rw [← pascalCase_eq_empty h]
  unfold className
  dsimp only
  split
  · rename_i htaken
    refine iff_of_false (fun hempty => ?_) (ne_empty_of_taken (by decide) htaken)
    have hlast := congrArg (fun s : String => s.toList.getLast?) hempty
    simp at hlast
  · rfl

/-- A longer name is an identifier if the class name that it starts with is one. -/
theorem className_append_isIdentifier {back : String} (h : isIdentifier name.toList = true)
    (hback : back.toList.all isIdentifierTail = true) (hinitial : initial? name ≠ none) :
    isIdentifier (className name ++ back).toList = startsWithLetter name := by
  have hne : (className name).toList ≠ [] := by
    intro hempty
    exact hinitial ((className_eq_empty h).1 (String.toList_inj.1 hempty))
  rw [String.toList_append, isIdentifier_append hback hne, className_isIdentifier h]

/-- **The client of a service** has a word of its own at the end, so the rest of the name may be empty. -/
theorem clientName_legal_iff (h : isIdentifier name.toList = true) :
    Legal (className name ++ "Client") ↔ (initial? name).all Char.isAlpha = true := by
  have hkeyword : className name ++ "Client" ∉ keywords := by
    have hlast : ∀ k ∈ keywords, k.toList.reverse.take 2 ≠ ['t', 'n'] := by decide +kernel
    intro hmem
    refine hlast _ hmem ?_
    rw [String.toList_append, List.reverse_append]
    rfl
  unfold Legal
  rw [and_iff_left hkeyword]
  cases hinitial : initial? name with
  | none =>
    rw [(className_eq_empty h).2 hinitial]
    decide
  | some c =>
    rw [className_append_isIdentifier h (by decide) (by rw [hinitial]; exact Option.some_ne_none c), startsWithLetter,
      hinitial]
    rfl

/-- A variant that starts with the name of its union is no keyword: the second word would start with a small letter. -/
theorem variantName_not_mem (h : isIdentifier name.toList = true) (hinitial : initial? name ≠ none) :
    className name ++ pascalCase member ∉ keywords := by
  have hsmall : ∀ k ∈ keywords, k.toList.tail.all Char.isLower = true := by decide +kernel
  intro hmem
  cases hpascal : (pascalCase member).toList with
  | nil =>
    rw [String.toList_inj.1 (hpascal.trans String.toList_empty.symm), String.append_empty] at hmem
    exact className_not_keyword name hmem
  | cons c rest =>
    cases hclass : (className name).toList with
    | nil => exact hinitial ((className_eq_empty h).1 (String.toList_inj.1 hclass))
    | cons d tail =>
      have hc : c.isLower = true := by
        refine List.all_eq_true.1 (hsmall _ hmem) c ?_
        rw [String.toList_append, hclass, hpascal]
        exact List.mem_append_right _ List.mem_cons_self
      rw [(pascalCase_head hpascal).1] at hc
      cases hc

/-- **Variants** have the name of the union and that of the member; if the first is empty nothing keeps the second from
being a keyword. -/
theorem variantName_legal_iff (h : isIdentifier name.toList = true) (hmember : isIdentifier member.toList = true) :
    Legal (className name ++ pascalCase member) ↔ startsWithLetter name = true ∨
      initial? name = none ∧ startsWithLetter member = true ∧ pascalCase member ∉ keywords := by
  unfold Legal
  cases hinitial : initial? name with
  | none =>
    have hstart : startsWithLetter name = false := by
      unfold startsWithLetter
      rw [hinitial]
      rfl
    rw [(className_eq_empty h).2 hinitial, String.empty_append, pascalCase_isIdentifier hmember, hstart]
    simp
  | some c =>
    have hsome : initial? name ≠ none := by
      rw [hinitial]
      exact Option.some_ne_none c
    rw [className_append_isIdentifier h (pascalCase_tail hmember) hsome, and_iff_left (variantName_not_mem h hsome)]
    simp

/-- Is the name legal that a shape of the kind declares? Collections and simple types declare none. -/
def legally? (name : String) : Kind → Option Bool
  | .struct _ | .enumeration _ | .union _ => some (startsWithLetter name)
  | .operation _ => some (startsWithLetter name && !keywords.contains (snakeCase name))
  | .service _ => some ((initial? name).all Char.isAlpha)
  | .list _ | .set _ | .map _ _ | .scalar _ => none

/-- The symbol of a shape that declares a name is declared in a file, and its name is legal as told. -/
theorem shapeSymbol_legal_iff {p : Provider} {m : Model} {id : ShapeId} {kind : Kind} {legal : Bool}
    (hname : isIdentifier id.name.toList = true) (hlegal : legally? id.name kind = some legal) :
    ∃ s, p.shapeSymbol m id default kind = .ok s ∧ s.file.isSome = true ∧ (Legal s.name ↔ legal = true) := by
  cases kind with
  | struct | enumeration =>
    cases hlegal
    refine ⟨valueClass p.package id, rfl, rfl, ?_⟩
    rw [valueClass_name]
    exact className_legal_iff hname
  | union =>
    cases hlegal
    refine ⟨unionType p.package id, rfl, rfl, ?_⟩
    rw [unionType_name]
    exact className_legal_iff hname
  | operation =>
    cases hlegal
    have hmethod : (operationMethod p.package id).name = snakeCase id.name := rfl
    refine ⟨operationMethod p.package id, rfl, rfl, ?_⟩
    rw [hmethod, methodName_legal_iff hname]
    simp
  | service =>
    cases hlegal
    have hclient : (serviceClient p.package id).name = className id.name ++ "Client" := rfl
    refine ⟨serviceClient p.package id, rfl, rfl, ?_⟩
    rw [hclient]
    exact clientName_legal_iff hname
  | _ => cases hlegal

end Naming

namespace Provider

open Text Naming

/-- **Which declared names are legal.** A structure, enumeration, union, operation or service has a symbol by default
that is declared in a file of the package, and so has every variant of a union. If the names given are identifiers:
1. the name of a structure, enumeration or union is legal if and only if the first character that is no underscore is
   a letter; that of an operation if besides it is no keyword in the style of methods; that of a service also if
   there is no such character;
2. the name of a variant is legal if the union's starts with a letter, or is empty and the member's is legal by itself;
3. the attribute of a member is legal if and only if the first character that is no underscore is a letter. -/
theorem defaultSymbol_legal_iff (package : String) (m : Model) (lookup : ShapeId → Names Symbol) (t : Table) :
    (∀ id shape legal, id.member = none → m.get? id = some shape → isIdentifier id.name.toList = true →
      legally? id.name shape.kind = some legal →
      ∃ s, (({ package } : Provider).defaultSymbol m lookup id).run t = (.ok s, t) ∧ s.file.isSome = true ∧
        (Legal s.name ↔ legal = true)) ∧
    (∀ id shape members name member, id.member = some name → m.get? id = some shape → shape.kind = .union members →
      shape.member? name = some member → isIdentifier id.name.toList = true → isIdentifier name.toList = true →
      ∃ s, (({ package } : Provider).defaultSymbol m lookup id).run t = (.ok s, t) ∧ s.file.isSome = true ∧
        (Legal s.name ↔ startsWithLetter id.name = true ∨
          initial? id.name = none ∧ startsWithLetter name = true ∧ pascalCase name ∉ keywords)) ∧
    ∀ name, isIdentifier name.toList = true →
      (Legal (({ package } : Provider).memberName name) ↔ startsWithLetter name = true) := by
  refine ⟨?_, ?_, ?_⟩
  · intro id shape legal hid hshape hname hlegal
    obtain ⟨s, hs, hfile, hiff⟩ := shapeSymbol_legal_iff (p := { package }) (m := m) hname hlegal
    refine ⟨s, ?_, hfile, hiff⟩
    have helement : shape.kind.element? = none := by
      cases hkind : shape.kind <;> rw [hkind] at hlegal <;> first | rfl | cases hlegal
    rw [defaultSymbol_shape lookup hid hshape, helement]
    dsimp only
    rw [hs]
    rfl
  · intro id shape members name member hid hshape hkind hmember hname hmemberName
    have hunion : shape.id.name = id.name := by
      rw [(Model.get?_id hshape).1]
      rfl
    have hvariant : (variant package shape.id name).name = className shape.id.name ++ pascalCase name := rfl
    have hfile : (variant package shape.id name).file.isSome = true := rfl
    refine ⟨variant package shape.id name, ?_, hfile, ?_⟩
    · rw [defaultSymbol_member lookup hid hshape, hkind, hmember]
      rfl
    · rw [hvariant, hunion]
      exact variantName_legal_iff hname hmemberName
  · intro name hname
    dsimp only
    exact memberName_legal_iff hname

def oddId (name : String) : ShapeId := { ns := "ex", name }

/-- Names that are identifiers, of unusual form. -/
def oddNames : Model where
  shapes := [
    { id := oddId "Import", kind := .operation {} },
    { id := oddId "_", kind := .union [{ id := (oddId "_").withMember "none", target := .prelude "String" }] },
    { id := oddId "_1", kind := .struct [{ id := (oddId "_1").withMember "_2", target := .prelude "String" }] }]
  distinct := by decide

/-- The names of all shapes and members are identifiers, and none of those that are declared for them is legal. -/
theorem oddNames_not_legal :
    (∀ s ∈ oddNames.shapes, isIdentifier s.id.name.toList = true ∧
      ∀ x ∈ s.members, isIdentifier x.name.toList = true) ∧ ∀ lookup t,
    (∀ id ∈ [oddId "Import", (oddId "_").withMember "none", oddId "_1"],
      ∃ s, (({ package := "p" } : Provider).defaultSymbol oddNames lookup id).run t = (.ok s, t) ∧ ¬ Legal s.name) ∧
    ¬ Legal (({ package := "p" } : Provider).memberName "_2") := by
  refine ⟨by decide, fun lookup t => ?_⟩
  obtain ⟨hshapes, hvariants, hmembers⟩ := defaultSymbol_legal_iff "p" oddNames lookup t
  have hmethod : legally? "Import" (.operation {}) = some false := by decide +kernel
  have hclass : legally? "_1" oddNames.shapes[2].kind = some false := by decide +kernel
  refine ⟨fun id hid => ?_, fun h => ?_⟩
  · simp only [List.mem_cons, List.not_mem_nil, or_false] at hid
    rcases hid with rfl | rfl | rfl
    · obtain ⟨s, hs, -, hlegal⟩ := hshapes (oddId "Import") oddNames.shapes[0] false rfl rfl (by decide) hmethod
      exact ⟨s, hs, fun h => Bool.false_ne_true (hlegal.1 h)⟩
    · obtain ⟨s, hs, -, hlegal⟩ := hvariants ((oddId "_").withMember "none") oddNames.shapes[1] _ "none" _ rfl rfl rfl rfl
        (by decide) (by decide)
      have hkeyword : pascalCase "none" ∈ keywords := by decide +kernel
      refine ⟨s, hs, fun h => ?_⟩
      rcases hlegal.1 h with hletter | ⟨-, -, hfree⟩
      · exact absurd hletter (by decide)
      · exact hfree hkeyword
    · obtain ⟨s, hs, -, hlegal⟩ := hshapes (oddId "_1") oddNames.shapes[2] false rfl rfl (by decide) hclass
      exact ⟨s, hs, fun h => Bool.false_ne_true (hlegal.1 h)⟩
  · exact absurd ((hmembers "_2" (by decide)).1 h) (by decide)

end Provider

end ClientGen
