import ScriptLint.Proofs.Lines
import ScriptLint.Text.Lines

/-!
# Masking a text

Masking writes spaces over the bytes of a text at some offsets and keeps its line feeds, so every offset stays what
it is. A character is masked as a whole; where the masked offsets do not divide a character, this is what writing
over the bytes one by one gives.
-/

namespace ScriptLint

open List

namespace Text

/-- Write spaces over the characters that begin at masked offsets, as many as they have bytes. -/
def mask (masked : Nat → Bool) (offset : Nat) : List Char → List Char
  | [] => []
  | c :: cs =>
    (if masked offset && c != '\n' then List.replicate c.utf8Size ' ' else [c]) ++
      mask masked (offset + c.utf8Size) cs

/-- Write spaces over the bytes at masked offsets other than line feeds. -/
def overwrite (masked : Nat → Bool) (bytes : List UInt8) : List UInt8 :=
  bytes.mapIdx fun offset byte => if masked offset && byte != 10 then 32 else byte

variable (masked : Nat → Bool)

theorem mask_cons (offset : Nat) (c : Char) (cs : List Char) :
    mask masked offset (c :: cs) =
      (if masked offset && c != '\n' then List.replicate c.utf8Size ' ' else [c]) ++
        mask masked (offset + c.utf8Size) cs :=
  rfl

theorem byteLength_replicate_space (count : Nat) : byteLength (List.replicate count ' ') = count := by
  have space : ' '.utf8Size = 1 := rfl
  induction count with
  | zero => rfl
  | succ _ ih => rw [replicate_succ, byteLength_cons, ih, space, Nat.add_comm]

@[simp] theorem byteLength_mask (offset : Nat) (text : List Char) :
    byteLength (mask masked offset text) = byteLength text := by
  induction text generalizing offset with
  | nil => rfl
  | cons _ _ ih =>
    rw [mask_cons, byteLength_append, ih, byteLength_cons]
    split
    · rw [byteLength_replicate_space]
    · simp

theorem mask_append (offset : Nat) (front back : List Char) :
    mask masked offset (front ++ back) = mask masked offset front ++ mask masked (offset + byteLength front) back := by
  induction front generalizing offset with
  | nil => rfl
  | cons _ _ ih => rw [cons_append, mask_cons, ih, mask_cons, byteLength_cons, append_assoc, Nat.add_assoc]

theorem mask_lineFeed (offset : Nat) (text : List Char) :
    mask masked offset ('\n' :: text) = '\n' :: mask masked (offset + 1) text := by
  simp [mask_cons, show '\n'.utf8Size = 1 from rfl]

variable {offset : Nat} {text : List Char}

/-- A text with no masked offset stays as it is. -/
theorem mask_of_clear (clear : ∀ place, offset ≤ place → place < offset + byteLength text → masked place = false) :
    mask masked offset text = text := by
  induction text generalizing offset with
  | nil => rfl
  | cons c _ ih =>
    have positive := c.utf8Size_pos
    rw [byteLength_cons] at clear
    have first := clear offset (Nat.le_refl _) (by omega)
    rw [mask_cons, first, Bool.false_and, if_neg Bool.false_ne_true, singleton_append, ih]
    intro place le lt
    exact clear place (by omega) (by omega)

/-- A line with every offset masked becomes blank. -/
theorem mask_eq_replicate (oneLine : '\n' ∉ text)
    (covered : ∀ place, offset ≤ place → place < offset + byteLength text → masked place) :
    mask masked offset text = List.replicate (byteLength text) ' ' := by
  induction text generalizing offset with
  | nil => rfl
  | cons c _ ih =>
    have positive := c.utf8Size_pos
    rw [byteLength_cons] at covered
    have first := covered offset (Nat.le_refl _) (by omega)
    have other : (c != '\n') := by
      rw [bne_iff_ne]
      intro same
      exact oneLine (same ▸ mem_cons_self)
    have rest := ih (fun found => oneLine (mem_cons_of_mem c found)) (fun place le lt =>
      covered place (Nat.le_trans (Nat.le_add_right offset c.utf8Size) le) (by omega))
    rw [mask_cons, first, other, Bool.and_self, if_pos rfl, rest, replicate_append_replicate, byteLength_cons]

/-- Mask physical lines, the first of which begins at an offset. -/
def maskLines (offset : Nat) : List (List Char) → List (List Char)
  | [] => []
  | line :: rest => mask masked offset line :: maskLines (offset + byteLength line + 1) rest

theorem intercalate_maskLines (offset : Nat) (lines : List (List Char)) :
    ['\n'].intercalate (maskLines masked offset lines) = mask masked offset (['\n'].intercalate lines) := by
  induction lines generalizing offset with
  | nil => rfl
  | cons line rest ih =>
    cases rest with
    | nil => rw [maskLines, maskLines, intercalate_singleton, intercalate_singleton]
    | cons =>
      have joined := ih (offset + byteLength line + 1)
      rw [maskLines] at joined
      rw [maskLines, maskLines, intercalate_cons_cons, joined, intercalate_cons_cons, append_assoc,
        append_assoc, mask_append, singleton_append, singleton_append, mask_lineFeed]

theorem not_mem_mask {line : List Char} (oneLine : '\n' ∉ line) : '\n' ∉ mask masked offset line := by
  induction line generalizing offset with
  | nil => exact not_mem_nil
  | cons _ _ ih =>
    rw [mem_cons, not_or] at oneLine
    rw [mask_cons, mem_append, not_or]
    refine ⟨?_, ih oneLine.2⟩
    split
    · intro held
      exact absurd (eq_of_mem_replicate held) (by decide)
    · exact fun held => oneLine.1 (mem_singleton.mp held)

theorem not_mem_of_mem_maskLines {lines : List (List Char)} (separate : ∀ line ∈ lines, '\n' ∉ line) :
    ∀ line ∈ maskLines masked offset lines, '\n' ∉ line := by
  induction lines generalizing offset with
  | nil => exact fun line found => nomatch found
  | cons first _ ih =>
    intro line found
    rcases mem_cons.mp found with rfl | later
    · exact not_mem_mask masked (separate first mem_cons_self)
    · exact ih (fun line found => separate line (mem_cons_of_mem first found)) line later

/-- The lines of a masked text are its lines, masked. -/
theorem splitOn_mask (offset : Nat) (text : List Char) :
    (mask masked offset text).splitOn '\n' = maskLines masked offset (text.splitOn '\n') := by
  have separate : ∀ line ∈ maskLines masked offset (text.splitOn '\n'), '\n' ∉ line :=
    not_mem_of_mem_maskLines masked fun line found => not_mem_of_mem_splitOn found
  have filled : maskLines masked offset (text.splitOn '\n') ≠ [] := by
    cases found : text.splitOn '\n' with
    | nil => exact absurd found (splitOn_ne_nil '\n' text)
    | cons => exact cons_ne_nil _ _
  rw [← splitOn_intercalate '\n' separate filled, intercalate_maskLines, intercalate_splitOn]

/-- Masking keeps the starts of the lines. -/
theorem startsAfter_mask (offset : Nat) (text : List Char) :
    LineIndex.startsAfter offset (mask masked offset text) = LineIndex.startsAfter offset text := by
  have blanks (count offset : Nat) (text : List Char) :
      LineIndex.startsAfter offset (List.replicate count ' ' ++ text) =
        LineIndex.startsAfter (offset + count) text := by
    induction count generalizing offset with
    | zero => rfl
    | succ _ ih =>
      rw [replicate_succ, cons_append, LineIndex.startsAfter, if_neg (by decide), ih,
        show ' '.utf8Size = 1 from rfl, Nat.add_assoc, Nat.add_comm 1]
  induction text generalizing offset with
  | nil => rfl
  | cons c _ ih =>
    rw [mask_cons]
    split
    · rename_i hidden
      have other : (c == '\n') = false := by simp_all
      rw [blanks, ih, LineIndex.startsAfter, other, if_neg Bool.false_ne_true]
    · rw [singleton_append, LineIndex.startsAfter, LineIndex.startsAfter, ih]

/-- Masking keeps the line index. -/
theorem ofText_mask (text : List Char) : LineIndex.ofText (mask masked 0 text) = LineIndex.ofText text := by
  rw [LineIndex.ofText, LineIndex.ofText, startsAfter_mask, byteLength_mask]

/-- Masked offsets that take a character of a text as a whole or not at all. -/
def Undivided (offset : Nat) : List Char → Prop
  | [] => True
  | c :: cs =>
    (∀ place, offset ≤ place → place < offset + c.utf8Size → masked place = masked offset) ∧
      Undivided (offset + c.utf8Size) cs

theorem undivided_append (offset : Nat) (front back : List Char) :
    Undivided masked offset (front ++ back) ↔
      Undivided masked offset front ∧ Undivided masked (offset + byteLength front) back := by
  induction front generalizing offset with
  | nil => simp [Undivided]
  | cons _ _ ih => rw [cons_append, Undivided, Undivided, ih, byteLength_cons, and_assoc, Nat.add_assoc]

/-- A text that is all masked or all clear has no divided character. -/
theorem undivided_of_constant {hidden : Bool}
    (constant : ∀ place, offset ≤ place → place < offset + byteLength text → masked place = hidden) :
    Undivided masked offset text := by
  induction text generalizing offset with
  | nil => trivial
  | cons _ _ ih =>
    rw [byteLength_cons] at constant
    refine ⟨?_, ih fun place le lt => constant place (by omega) (by omega)⟩
    intro place le lt
    rw [constant place le (by omega), constant offset (Nat.le_refl _) (by omega)]

theorem overwrite_of_constant {written : List UInt8} {hidden : Bool}
    (constant : ∀ place < written.length, masked place = hidden) :
    overwrite masked written = written.map fun byte => if hidden && byte != 10 then 32 else byte := by
  apply ext_getElem
  · rw [overwrite, length_mapIdx, length_map]
  · intro place inside _
    rw [overwrite, length_mapIdx] at inside
    simp only [overwrite, getElem_mapIdx, getElem_map, constant place inside]

theorem bytes_replicate_space (count : Nat) : bytes (List.replicate count ' ') = List.replicate count 32 := by
  induction count with
  | zero => rfl
  | succ _ ih => rw [replicate_succ, bytes_cons, ih, replicate_succ]; rfl

theorem overwrite_utf8EncodeChar {c : Char}
    (whole : ∀ place, offset ≤ place → place < offset + c.utf8Size → masked place = masked offset) :
    overwrite (fun place => masked (offset + place)) (String.utf8EncodeChar c) =
      bytes (if masked offset && c != '\n' then List.replicate c.utf8Size ' ' else [c]) := by
  have constant : ∀ place < (String.utf8EncodeChar c).length, masked (offset + place) = masked offset := by
    intro place inside
    rw [String.length_utf8EncodeChar] at inside
    exact whole (offset + place) (Nat.le_add_right _ _) (Nat.add_lt_add_left inside offset)
  rw [overwrite_of_constant _ constant]
  cases masked offset with
  | false => simp
  | true =>
    by_cases feed : c = '\n'
    · subst feed
      decide
    · have others : ∀ byte ∈ String.utf8EncodeChar c, (if true && byte != 10 then 32 else byte) = (32 : UInt8) := by
        intro byte found
        have other : byte ≠ 10 := fun same => feed (eq_lineFeed_of_mem_utf8EncodeChar (same ▸ found))
        simp [other]
      have condition : (true && c != '\n') := by simp [feed]
      rw [map_congr_left others, map_const', String.length_utf8EncodeChar, if_pos condition,
        bytes_replicate_space]

/-- Masking is writing over the bytes, where no character is divided. -/
theorem bytes_mask (undivided : Undivided masked offset text) :
    bytes (mask masked offset text) = overwrite (fun place => masked (offset + place)) (bytes text) := by
  induction text generalizing offset with
  | nil => rfl
  | cons c _ ih =>
    obtain ⟨whole, undivided⟩ := undivided
    have shifted : (fun place => masked (offset + c.utf8Size + place)) =
        fun place => masked (offset + (place + c.utf8Size)) := by
      funext place
      congr 1
      omega
    rw [mask_cons, bytes_append, ih undivided, ← overwrite_utf8EncodeChar masked whole, bytes_cons, shifted]
    simp only [overwrite, mapIdx_append, String.length_utf8EncodeChar]

end Text

end ScriptLint
