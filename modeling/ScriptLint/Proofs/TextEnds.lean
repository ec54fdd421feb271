import Mathlib.Data.List.DropRight
import Mathlib.Data.List.TakeWhile
import ScriptLint.Text.Chars

/-!
# Beginnings and ends of texts

What is left of a text without a given beginning, and without the white space at its ends. Texts that are listed with a
comma and a space between them come back when the list is split at the commas and each part is trimmed.
-/

namespace ScriptLint

open List

namespace Text

theorem dropBeginning?_append (beginning more rest : List Char) :
    dropBeginning? (beginning ++ more) (beginning ++ rest) = dropBeginning? more rest := by
  induction beginning with
  | nil => rfl
  | cons c _ ih => rw [cons_append, cons_append, dropBeginning?, if_pos (beq_self_eq_true c), ih]

theorem dropBeginning?_self (beginning rest : List Char) :
    dropBeginning? beginning (beginning ++ rest) = some rest := by
  have all := dropBeginning?_append beginning [] rest
  rwa [append_nil] at all

variable {c : Char} {cs : List Char} {parts : List (List Char)}

/-- A beginning that goes on with another character than the text is none. -/
theorem dropBeginning?_of_ne {rest : List Char} (more : List Char) (other : rest.head? ≠ some c) :
    dropBeginning? (c :: more) rest = none := by
  cases rest with
  | nil => rfl
  | cons =>
    have apart := beq_eq_false_iff_ne.mpr fun same => other (congrArg some same.symm)
    rw [dropBeginning?, apart]
    rfl

/-- What trimming takes from the end is white space. -/
theorem exists_trimEnd_append (cs : List Char) : ∃ tail, cs = trimEnd cs ++ tail ∧ ∀ c ∈ tail, isWhite c := by
  refine ⟨(cs.reverse.takeWhile isWhite).reverse, ?_, fun c found => ?_⟩
  · rw [trimEnd, ← reverse_append, takeWhile_append_dropWhile, reverse_reverse]
  · exact mem_takeWhile_imp (mem_reverse.mp found)

/-- What trimming takes away is white space. -/
theorem exists_append_trim (cs : List Char) : ∃ lead tail, cs = lead ++ (trim cs ++ tail) ∧
    (∀ c ∈ lead, isWhite c) ∧ ∀ c ∈ tail, isWhite c := by
  obtain ⟨tail, same, blank⟩ := exists_trimEnd_append (trimStart cs)
  refine ⟨cs.takeWhile isWhite, tail, ?_, fun c found => mem_takeWhile_imp found, blank⟩
  rw [trim, ← same, trimStart, takeWhile_append_dropWhile]

theorem dropWhile_isWhite (visible : ∀ c ∈ cs, isWhite c = false) : cs.dropWhile isWhite = cs := by
  cases cs with
  | nil => rfl
  | cons c => exact dropWhile_cons_of_neg (Bool.eq_false_iff.mp (visible c mem_cons_self))

/-- Trimming the end stops at what is no white space. -/
theorem trimEnd_append {front : List Char} (visible : ∀ c ∈ front, isWhite c = false) (cs : List Char) :
    trimEnd (front ++ cs) = front ++ trimEnd cs := by
  rw [trimEnd, trimEnd, reverse_append, dropWhile_append]
  split
  · rename_i blank
    rw [List.isEmpty_iff.mp blank, dropWhile_isWhite fun c found => visible c (mem_reverse.mp found)]
    simp
  · rw [reverse_append, reverse_reverse]

theorem trim_append {lead front : List Char} (blank : ∀ c ∈ lead, isWhite c) (filled : front ≠ [])
    (visible : ∀ c ∈ front, isWhite c = false) (cs : List Char) :
    trim (lead ++ (front ++ cs)) = front ++ trimEnd cs := by
  obtain ⟨first, rest, rfl⟩ := exists_cons_of_ne_nil filled
  have stops : (first :: rest ++ cs).dropWhile isWhite = first :: rest ++ cs :=
    dropWhile_cons_of_neg (Bool.eq_false_iff.mp (visible first mem_cons_self))
  rw [trim, trimStart, dropWhile_append_of_pos blank, stops, trimEnd_append visible]

/-- Trimming the end of a text that ends in something visible changes nothing. -/
theorem trimEnd_of_visible (cs : List Char) {tail : List Char} (filled : tail ≠ [])
    (visible : ∀ c ∈ tail, isWhite c = false) : trimEnd (cs ++ tail) = cs ++ tail := by
  obtain ⟨last, rest, order⟩ := exists_cons_of_ne_nil (mt reverse_eq_nil_iff.mp filled)
  have found : last ∈ tail := mem_reverse.mp (order ▸ mem_cons_self)
  rw [trimEnd, reverse_append, order, cons_append,
    dropWhile_cons_of_neg (Bool.eq_false_iff.mp (visible last found)), ← cons_append, ← order,
    ← reverse_append, reverse_reverse]

/-- Trimming changes nothing where both ends are visible. -/
theorem trim_of_ends (front : ∀ c ∈ cs.head?, isWhite c = false) (back : ∀ c ∈ cs.getLast?, isWhite c = false) :
    trim cs = cs := by
  have start : trimStart cs = cs := by
    cases cs with
    | nil => rfl
    | cons c => exact dropWhile_cons_of_neg (Bool.eq_false_iff.mp (front c rfl))
  rw [trim, start]
  apply rdropWhile_eq_self_iff.mpr
  intro filled
  exact Bool.eq_false_iff.mp (back _ (getLast?_eq_some_getLast filled))

theorem trim_of_visible (visible : ∀ c ∈ cs, isWhite c = false) : trim cs = cs :=
  trim_of_ends (fun c first => visible c (mem_of_head? first))
    fun c last => visible c (mem_of_getLast? last)

theorem trim_trim (cs : List Char) : trim (trim cs) = trim cs := by
  apply trim_of_ends
  · intro c first
    obtain ⟨tail, whole⟩ : trim cs <+: cs.dropWhile isWhite := rdropWhile_prefix isWhite (trimStart cs)
    have stops := head?_dropWhile_not isWhite cs
    rw [← whole, head?_append, Option.mem_def.mp first] at stops
    exact stops
  · intro c last
    have filled : trim cs ≠ [] := fun blank => by simp [blank] at last
    have stops : ¬isWhite ((trim cs).getLast filled) := rdropWhile_last_not isWhite (trimStart cs) filled
    rw [getLast?_eq_some_getLast filled, Option.mem_some_iff] at last
    rw [last] at stops
    exact Bool.eq_false_iff.mpr stops

theorem trim_cons_of_white (white : isWhite c) (cs : List Char) : trim (c :: cs) = trim cs := by
  rw [trim, trimStart, dropWhile_cons_of_pos white]
  rfl

/-- Something visible is left of a text that is trimmed. -/
theorem trim_ne_nil (found : c ∈ cs) (visible : isWhite c = false) : trim cs ≠ [] := by
  intro blank
  have allWhite := (rdropWhile_eq_nil_iff).mp blank
  rw [← takeWhile_append_dropWhile (p := isWhite) (l := cs)] at found
  rcases mem_append.mp found with front | back
  · rw [mem_takeWhile_imp front] at visible
    cases visible
  · rw [allWhite c back] at visible
    cases visible

/-! ## Lists of texts -/

/-- What holds of the characters of some texts and of what stands between them holds throughout. -/
theorem forall_mem_intercalate {holds : Char → Prop} {between : List Char} (ofBetween : ∀ c ∈ between, holds c)
    (ofParts : ∀ part ∈ parts, ∀ c ∈ part, holds c) : ∀ c ∈ between.intercalate parts, holds c := by
  induction parts with
  | nil => exact forall_mem_nil _
  | cons _ parts ih =>
    obtain ⟨ofPart, ofLater⟩ := forall_mem_cons.mp ofParts
    cases parts with
    | nil =>
      rw [intercalate_singleton]
      exact ofPart
    | cons =>
      rw [intercalate_cons_cons]
      exact forall_mem_append.mpr ⟨forall_mem_append.mpr ⟨ofPart, ofBetween⟩, ih ofLater⟩

/-- A list of visible texts has nothing to trim. -/
theorem trim_listing (filled : ∀ part ∈ parts, part ≠ []) (visible : ∀ part ∈ parts, ∀ c ∈ part, isWhite c = false) :
    trim (", ".toList.intercalate parts) = ", ".toList.intercalate parts := by
  apply trim_of_ends
  · cases parts with
    | nil => exact fun c first => absurd first (by simp)
    | cons part =>
      obtain ⟨first, more, rfl⟩ := exists_cons_of_ne_nil (filled part mem_cons_self)
      rw [intercalate_cons_cons_left]
      intro c same
      exact Option.mem_some_iff.mp same ▸ visible _ mem_cons_self first mem_cons_self
  · induction parts with
    | nil => exact fun c last => absurd last (by simp)
    | cons _ parts ih =>
      obtain ⟨partVisible, laterVisible⟩ := forall_mem_cons.mp visible
      cases parts with
      | nil =>
        rw [intercalate_singleton]
        exact fun c last => partVisible c (mem_of_getLast? last)
      | cons next parts =>
        have laterFilled := (forall_mem_cons.mp filled).2
        have more : ", ".toList.intercalate (next :: parts) ≠ [] := by
          obtain ⟨first, rest, rfl⟩ := exists_cons_of_ne_nil (laterFilled next mem_cons_self)
          rw [intercalate_cons_cons_left]
          exact cons_ne_nil _ _
        rw [intercalate_cons_cons, getLast?_append_of_ne_nil _ more]
        exact ih laterFilled laterVisible

/-- Splitting a text that lists others, and trimming, gives them back. It is enough that the splitter divides at the
first comma behind each of them, and that a space in front makes no difference. -/
theorem map_trim_split {split : List Char → List (List Char)} (own : List Char → Prop)
    (last : ∀ part, own part → split part = [part])
    (first : ∀ part rest, own part → split (part ++ ',' :: rest) = part :: split rest)
    (spaced : ∀ part, own part → own (' ' :: part)) {part : List Char} (isOwn : own part)
    (allOwn : ∀ part ∈ parts, own part) :
    (split (", ".toList.intercalate (part :: parts))).map trim = (part :: parts).map trim := by
  induction parts generalizing part with
  | nil => rw [intercalate_singleton, last part isOwn]
  | cons next parts ih =>
    obtain ⟨nextOwn, laterOwn⟩ := forall_mem_cons.mp allOwn
    have behind : ", ".toList.intercalate (part :: next :: parts) =
        part ++ ',' :: ", ".toList.intercalate ((' ' :: next) :: parts) := by
      rw [intercalate_cons_cons, intercalate_cons_cons_left, append_assoc]
      rfl
    rw [behind, first _ _ isOwn, map_cons, ih (spaced next nextOwn) laterOwn, map_cons,
      trim_cons_of_white (by decide), map_cons, map_cons]

end Text

end ScriptLint
