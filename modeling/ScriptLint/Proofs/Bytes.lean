import ScriptLint.Text.Span

/-!
# Offsets and bytes

An offset counts bytes, while every definition works on characters. The lemmas of this module go from one to the
other: splitting at the end of a known front, and the UTF-8 form of a text.
-/

namespace ScriptLint

open List

theorem Span.contains_iff {span : Span} {offset : Nat} :
    span.contains offset ↔ span.start ≤ offset ∧ offset < span.stop := by
  simp [contains]

namespace Text

theorem byteLength_pos {text : List Char} (filled : text ≠ []) : 0 < byteLength text := by
  cases text with
  | nil => exact absurd rfl filled
  | cons c =>
    have := c.utf8Size_pos
    rw [byteLength_cons]
    omega

theorem byteLength_eq_length {text : List Char} (small : ∀ c ∈ text, c.utf8Size = 1) :
    byteLength text = text.length := by
  induction text with
  | nil => rfl
  | cons _ _ ih =>
    obtain ⟨one, later⟩ := forall_mem_cons.mp small
    rw [byteLength_cons, ih later, one, length_cons, Nat.add_comm]

theorem splitBytes_byteLength (front back : List Char) :
    splitBytes (byteLength front) (front ++ back) = (front, back) := by
  induction front with
  | nil =>
    cases back with
    | nil => rfl
    | cons c =>
      have positive := c.utf8Size_pos
      rw [nil_append, byteLength_nil, splitBytes, if_neg (by omega)]
  | cons _ _ ih =>
    rw [cons_append, byteLength_cons, splitBytes, if_pos (Nat.le_add_right _ _), Nat.add_sub_cancel_left, ih]

/-- Two ways to divide one text, of which the second goes further. -/
theorem exists_middle {front back further rest : List Char} (same : front ++ back = further ++ rest)
    (le : byteLength front ≤ byteLength further) :
    ∃ middle, further = front ++ middle ∧ back = middle ++ rest := by
  rcases append_eq_append_iff.mp same with ⟨middle, further, back⟩ | ⟨middle, rfl, rfl⟩
  · exact ⟨middle, further, back⟩
  · have none : middle = [] := by
      cases middle with
      | nil => rfl
      | cons c cs =>
        have positive := byteLength_pos (cons_ne_nil c cs)
        rw [byteLength_append] at le
        omega
    exact ⟨[], by rw [none, append_nil, append_nil], by rw [none]; rfl⟩

/-- A slice is what stands between what precedes and what follows. -/
theorem slice?_append (front middle back : List Char) :
    slice? (front ++ (middle ++ back)) (byteLength front) (byteLength front + byteLength middle) = some middle := by
  rw [slice?, splitBytes_byteLength]
  dsimp only
  rw [Nat.add_sub_cancel_left, splitBytes_byteLength]
  exact if_pos ⟨Nat.le_add_right _ _, rfl, rfl⟩

/-- The UTF-8 form of a text. -/
def bytes (text : List Char) : List UInt8 := text.flatMap String.utf8EncodeChar

@[simp] theorem bytes_nil : bytes [] = [] := rfl

@[simp] theorem bytes_cons (c : Char) (cs : List Char) : bytes (c :: cs) = String.utf8EncodeChar c ++ bytes cs := rfl

@[simp] theorem bytes_append (front back : List Char) : bytes (front ++ back) = bytes front ++ bytes back :=
  flatMap_append

@[simp] theorem length_bytes (text : List Char) : (bytes text).length = byteLength text := by
  induction text with
  | nil => rfl
  | cons _ _ ih => rw [bytes_cons, length_append, ih, String.length_utf8EncodeChar, byteLength_cons]

theorem utf8ByteSize_eq (text : String) : text.utf8ByteSize = byteLength text.toList := by
  have encoded := String.toByteArray_ofList (l := text.toList)
  rw [String.ofList_toList] at encoded
  rw [← String.size_toByteArray, encoded, ← length_bytes]
  exact size_toByteArray

/-- A text is known from its bytes. -/
theorem eq_of_bytes_eq {text other : List Char} (same : bytes text = bytes other) : text = other := by
  have encoded : text.utf8Encode = other.utf8Encode := congrArg List.toByteArray same
  have decoded : some text.toArray = some other.toArray := by
    rw [← utf8Decode?_utf8Encode, ← utf8Decode?_utf8Encode, encoded]
  exact congrArg Array.toList (Option.some.inj decoded)

/-- Only a line feed has the byte of a line feed in its UTF-8 form. -/
theorem eq_lineFeed_of_mem_utf8EncodeChar {c : Char} (found : 10 ∈ String.utf8EncodeChar c) : c = '\n' := by
  -- Every byte of a longer form has its highest bit set.
  have high (bits mark : UInt8) (marked : 128 ≤ mark.toNat) : 10 ≠ bits ||| mark := by
    intro same
    have le : mark.toNat ≤ (bits ||| mark).toNat := by
      exact Nat.right_le_or
    rw [← same, show (10 : UInt8).toNat = 10 from rfl] at le
    omega
  rcases c.utf8Size_eq with one | two | three | four
  · rw [String.utf8EncodeChar_eq_singleton one, mem_singleton] at found
    have small : c.val.toNat ≤ 127 := Char.utf8Size_eq_one_iff.mp one
    have value : (10 : UInt8).toNat = c.val.toUInt8.toNat := congrArg UInt8.toNat found
    rw [UInt32.toNat_toUInt8, Nat.mod_eq_of_lt (by omega)] at value
    exact Char.ext (UInt32.toNat_inj.mp value.symm)
  · rw [String.utf8EncodeChar_eq_cons_cons two] at found
    simp [high] at found
  · rw [String.utf8EncodeChar_eq_cons_cons_cons three] at found
    simp [high] at found
  · rw [String.utf8EncodeChar_eq_cons_cons_cons_cons four] at found
    simp [high] at found

end Text

end ScriptLint
