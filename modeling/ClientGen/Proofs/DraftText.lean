import ClientGen.Draft.Run
import Mathlib.Data.List.Basic

/-!
# The text of a draft

Text is kept as bytes, but only whole characters are ever appended. So what was written after some point can
be read back as it was.

* `Draft.put_text`: what `Draft.put` appends.
* `Draft.put_frame`: nothing else changes but the state of the line.
* `Draft.dropLineEnd_chars`: a line end that is dropped is a whole character.
* `Text.decodeLossy_toUTF8`: what was written as characters is read as these characters.
-/

namespace ClientGen

theorem Text.decodeLossy_toUTF8 (s : String) : Text.decodeLossy s.toUTF8 = s := by
  have hread : String.fromUTF8? s.toUTF8 = some s := by
    rw [String.fromUTF8?, String.toUTF8_eq_toByteArray, dif_pos s.isValidUTF8]
    rfl
  rw [Text.decodeLossy, hread]

theorem toUTF8_append (s t : String) : (s ++ t).toUTF8 = s.toUTF8 ++ t.toUTF8 := String.toByteArray_append

theorem toUTF8_ofList (cs : List Char) : (String.ofList cs).toUTF8 = cs.utf8Encode := String.toByteArray_ofList

theorem toUTF8_empty : "".toUTF8 = .empty := rfl

namespace Draft

/-- The characters, with spaces before each that begins a line and does not end it; `start` tells whether the
first one begins a line. -/
def indented (lead : Nat) : Bool → List Char → List Char
  | _, [] => []
  | start, c :: rest =>
    if c = '\n' then '\n' :: indented lead true rest
    else (if start then List.replicate lead ' ' else []) ++ c :: indented lead false rest

theorem spaces_eq (n : Nat) : spaces n = (List.replicate n ' ').utf8Encode := by
  have hflat : (List.replicate n ' ').flatMap String.utf8EncodeChar = List.replicate n 0x20 := by
    induction n with
    | zero => rfl
    | succ n ih => rw [List.replicate_succ, List.flatMap_cons, ih, List.replicate_succ]; rfl
  apply ByteArray.ext
  rw [List.utf8Encode, hflat, List.data_toByteArray, List.toArray_replicate]
  rfl

theorem push_newline (b : ByteArray) : b.push 0x0a = b ++ ['\n'].utf8Encode := by
  apply ByteArray.ext
  rw [ByteArray.data_append]
  rfl

theorem putChar_text (d : Draft) (c : Char) :
    (d.putChar c).text = d.text ++ (indented d.lead d.atLineStart [c]).utf8Encode := by
  unfold putChar indented
  split
  · exact push_newline _
  · cases d.atLineStart
    · simp only [Bool.false_eq_true, if_false, indented, List.nil_append]
      exact congrArg _ (toUTF8_ofList [c])
    · simp only [if_true, indented, List.utf8Encode_append, spaces_eq]
      rw [ByteArray.append_assoc]
      exact congrArg _ (congrArg _ (toUTF8_ofList [c]))

theorem putChar_lead (d : Draft) (c : Char) : (d.putChar c).lead = d.lead := by
  unfold putChar
  split
  · rfl
  · split <;> rfl

theorem putChar_atLineStart (d : Draft) (c : Char) : (d.putChar c).atLineStart = decide (c = '\n') := by
  unfold putChar
  split
  · simp [*]
  · split <;> simp [*]

theorem indented_cons (lead : Nat) (start : Bool) (c : Char) (cs : List Char) :
    indented lead start (c :: cs) = indented lead start [c] ++ indented lead (decide (c = '\n')) cs := by
  by_cases h : c = '\n'
  · simp [indented, h]
  · cases start <;> simp [indented, h]

/-- **What is appended** is the text with the indentation of its lines. -/
theorem put_text (d : Draft) (s : String) :
    (d.put s).text = d.text ++ (String.ofList (indented d.lead d.atLineStart s.toList)).toUTF8 := by
  rw [toUTF8_ofList]
  unfold put
  induction s.toList generalizing d with
  | nil => simp [indented]
  | cons c cs ih =>
    rw [List.foldl_cons, ih, putChar_text, putChar_lead, putChar_atLineStart, indented_cons d.lead d.atLineStart c cs,
      List.utf8Encode_append, ByteArray.append_assoc]

theorem put_frame (d : Draft) (s : String) :
    ∃ text atLineStart column, d.put s = { d with text, atLineStart, column } := by
  unfold put
  induction s.toList generalizing d with
  | nil => exact ⟨_, _, _, rfl⟩
  | cons c cs ih =>
    have hc : ∃ text atLineStart column, d.putChar c = { d with text, atLineStart, column } := by
      unfold putChar
      split
      · exact ⟨_, _, _, rfl⟩
      · split <;> exact ⟨_, _, _, rfl⟩
    obtain ⟨text, atLineStart, column, hc⟩ := hc
    obtain ⟨text', atLineStart', column', hcs⟩ := ih { d with text, atLineStart, column }
    rw [List.foldl_cons, hc]
    exact ⟨text', atLineStart', column', hcs⟩

/-! ### Dropping a line end -/

theorem eq_newline_of_mem {c : Char} (h : (0x0a : UInt8) ∈ String.utf8EncodeChar c) : c = '\n' := by
  have hten : (0x0a : UInt8).toNat = 10 := rfl
  -- each of several bytes has its highest bit set
  have hhigh : ∀ {n : Nat}, 128 ≤ n → n < 256 → (0x0a : UInt8) ≠ UInt8.ofNat n := by
    intro n hlow hbyte hn
    have := congrArg UInt8.toNat hn
    rw [UInt8.toNat_ofNat'] at this
    omega
  unfold String.utf8EncodeChar at h
  dsimp only at h
  split at h
  · have hval := congrArg UInt8.toNat (List.mem_singleton.1 h)
    rw [UInt8.toNat_ofNat'] at hval
    apply Char.ext
    apply UInt32.toNat_inj.1
    have : '\n'.val.toNat = 10 := rfl
    omega
  · exfalso
    split at h
    · simp only [List.mem_cons, List.not_mem_nil, or_false] at h
      rcases h with h | h
      all_goals exact hhigh (by omega) (by omega) h
    · split at h
      all_goals
        simp only [List.mem_cons, List.not_mem_nil, or_false] at h
        rcases h with h | h | h
      all_goals try exact hhigh (by omega) (by omega) h
      rcases h with h | h
      all_goals exact hhigh (by omega) (by omega) h

theorem eq_newline_of_getLast? {c : Char} (h : (String.utf8EncodeChar c).getLast? = some 0x0a) : c = '\n' :=
  eq_newline_of_mem (List.mem_of_getLast? h)

theorem getElem?_last {b : ByteArray} {bytes : List UInt8} (h : bytes ≠ []) :
    (b ++ bytes.toByteArray)[(b ++ bytes.toByteArray).size - 1]? = bytes.getLast? := by
  have hlen := List.length_pos_iff.2 h
  show (b ++ bytes.toByteArray).data[(b ++ bytes.toByteArray).size - 1]? = _
  have hsize : (b ++ bytes.toByteArray).size - 1 = b.data.size + (bytes.length - 1) := by
    rw [ByteArray.size_append, List.size_toByteArray]
    show b.data.size + bytes.length - 1 = _
    omega
  rw [hsize, ByteArray.data_append, List.data_toByteArray, Array.getElem?_append_right (by omega),
    Nat.add_sub_cancel_left, List.getElem?_toArray, List.getLast?_eq_getElem?]

/-- The characters without a line end at their end. -/
def withoutLineEnd (cs : List Char) : List Char := if cs.getLast? = some '\n' then cs.dropLast else cs

theorem withoutLineEnd_concat (front : List Char) (c : Char) :
    withoutLineEnd (front ++ [c]) = if c = '\n' then front else front ++ [c] := by
  simp [withoutLineEnd]

theorem withoutLineEnd_append {front : List Char} (h : '\n' ∉ front) (cs : List Char) :
    withoutLineEnd (front ++ cs) = front ++ withoutLineEnd cs := by
  rcases List.eq_nil_or_concat' cs with rfl | ⟨cs, c, rfl⟩
  · rw [List.append_nil]
    unfold withoutLineEnd
    rw [if_neg fun hlast => h (List.mem_of_getLast? hlast)]
    exact (List.append_nil _).symm
  · rw [← List.append_assoc, withoutLineEnd_concat, withoutLineEnd_concat]
    split
    · rfl
    · rw [List.append_assoc]

/-- **A line end that is dropped is a whole character**, written after the offset. -/
theorem dropLineEnd_chars {d : Draft} {base : ByteArray} {cs : List Char} (h : d.text = base ++ cs.utf8Encode) :
    (dropLineEnd base.size d).text = base ++ (withoutLineEnd cs).utf8Encode := by
  unfold dropLineEnd
  dsimp only
  rcases List.eq_nil_or_concat' cs with rfl | ⟨front, c, rfl⟩
  · rw [if_neg (by simp [h])]
    exact h
  rw [withoutLineEnd_concat]
  rw [List.utf8Encode_append, List.utf8Encode_singleton] at h
  have hne : String.utf8EncodeChar c ≠ [] := by
    rw [← List.length_pos_iff, String.length_utf8EncodeChar]
    exact Char.utf8Size_pos c
  have hsize : base.size < d.text.size := by
    have := List.length_pos_iff.2 hne
    rw [h, ByteArray.size_append, ByteArray.size_append, List.size_toByteArray]
    omega
  have hlast : d.text[d.text.size - 1]? = (String.utf8EncodeChar c).getLast? := by
    rw [h, ← ByteArray.append_assoc]
    exact getElem?_last hne
  by_cases hc : c = '\n'
  · subst hc
    rw [if_pos rfl, if_pos (by simp [hsize, hlast]; rfl)]
    unfold truncate
    rw [h, ← ByteArray.append_assoc]
    exact ByteArray.extract_append_eq_left (by rw [ByteArray.size_append (b := List.toByteArray _)]; rfl)
  · have hbyte : (String.utf8EncodeChar c).getLast? ≠ some 0x0a := fun h => hc (eq_newline_of_getLast? h)
    rw [if_neg hc, if_neg (by simp [hlast, hbyte]), h, List.utf8Encode_append, List.utf8Encode_singleton]

theorem dropLineEnd_text {d : Draft} {base : ByteArray} {s : String} (h : d.text = base ++ s.toUTF8) :
    ∃ kept : String, (dropLineEnd base.size d).text = base ++ kept.toUTF8 := by
  refine ⟨String.ofList (withoutLineEnd s.toList), ?_⟩
  rw [toUTF8_ofList]
  apply dropLineEnd_chars
  rw [h, ← toUTF8_ofList, String.ofList_toList]

end Draft

end ClientGen
