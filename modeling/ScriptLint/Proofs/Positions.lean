import ScriptLint.Proofs.Bytes
import ScriptLint.Text.Lines

/-!
# Positions are faithful

A line index is built from the characters of a text and asked with offsets that count bytes. The line of an offset is
the number of line feeds in front of it, and between characters line and column tell every offset from every other.
-/

namespace ScriptLint

open Text List

namespace Text

/-- An offset that falls between two characters. -/
def Boundary (text : List Char) (offset : Nat) : Prop :=
  ∃ front back, text = front ++ back ∧ offset = byteLength front

/-- The line feeds of a text are those among its bytes. -/
theorem count_bytes (text : List Char) : (bytes text).count 10 = text.count '\n' := by
  induction text with
  | nil => rfl
  | cons c _ ih =>
    rw [bytes_cons, count_append, ih, Nat.add_comm, count_cons]
    by_cases feed : c = '\n'
    · rw [feed]
      rfl
    · rw [if_neg (by simpa using feed), count_eq_zero.mpr fun found => feed (eq_lineFeed_of_mem_utf8EncodeChar found)]

/-- A text ends with a part that is within one line, behind nothing or behind a line feed. -/
theorem exists_lastLine (text : List Char) :
    ∃ lead tail, text = lead ++ tail ∧ '\n' ∉ tail ∧ (lead = [] ∨ ∃ lines, lead = lines ++ ['\n']) := by
  induction text with
  | nil => exact ⟨[], [], rfl, not_mem_nil, .inl rfl⟩
  | cons c _ ih =>
    obtain ⟨lead, tail, rfl, within, starts⟩ := ih
    rcases starts with rfl | ⟨lines, rfl⟩
    · by_cases feed : c = '\n'
      · exact ⟨['\n'], tail, by rw [feed]; rfl, within, .inr ⟨[], rfl⟩⟩
      · refine ⟨[], c :: tail, rfl, ?_, .inl rfl⟩
        rw [mem_cons, not_or]
        exact ⟨Ne.symm feed, within⟩
    · exact ⟨c :: (lines ++ ['\n']), tail, rfl, within, .inr ⟨c :: lines, rfl⟩⟩

end Text

namespace LineIndex

variable {base offset start : Nat} {text front back : List Char}

/-! ## Where lines start -/

theorem startsAfter_append (base : Nat) (front back : List Char) :
    startsAfter base (front ++ back) = startsAfter base front ++ startsAfter (base + byteLength front) back := by
  induction front generalizing base with
  | nil => rfl
  | cons _ _ ih =>
    rw [cons_append, startsAfter, startsAfter, ih, byteLength_cons, ← Nat.add_assoc]
    split <;> rfl

theorem length_startsAfter (base : Nat) (text : List Char) : (startsAfter base text).length = text.count '\n' := by
  induction text generalizing base with
  | nil => rfl
  | cons _ _ ih =>
    rw [startsAfter, count_cons]
    split <;> simp [ih]

theorem lt_of_mem_startsAfter (found : start ∈ startsAfter base text) : base < start := by
  induction text generalizing base with
  | nil => cases found
  | cons c _ ih =>
    have positive := c.utf8Size_pos
    rw [startsAfter] at found
    split at found
    · rcases mem_cons.mp found with rfl | later
      · omega
      · have := ih later
        omega
    · have := ih found
      omega

theorem pairwise_startsAfter (base : Nat) (text : List Char) : (startsAfter base text).Pairwise (· < ·) := by
  induction text generalizing base with
  | nil => exact .nil
  | cons _ _ ih =>
    rw [startsAfter]
    split
    · exact .cons (fun _ later => lt_of_mem_startsAfter later) (ih _)
    · exact ih _

/-- The starts up to an offset are counted by the line feeds in front of it. -/
theorem countP_startsAfter (base offset : Nat) (text : List Char) :
    (startsAfter base text).countP (· ≤ base + offset) = ((bytes text).take offset).count 10 := by
  induction text generalizing base offset with
  | nil => simp [startsAfter]
  | cons c cs ih =>
    rw [bytes_cons, take_append, count_append, String.length_utf8EncodeChar]
    by_cases inside : c.utf8Size ≤ offset
    · have same : base + offset = base + c.utf8Size + (offset - c.utf8Size) := by omega
      have later := ih (base + c.utf8Size) (offset - c.utf8Size)
      have whole : (String.utf8EncodeChar c).take offset = String.utf8EncodeChar c :=
        take_of_length_le (by rwa [String.length_utf8EncodeChar])
      have here : (String.utf8EncodeChar c).count 10 = [c].count '\n' := by
        have single := count_bytes [c]
        rwa [bytes_cons, bytes_nil, append_nil] at single
      rw [startsAfter, whole, here, ← later, same]
      by_cases feed : c = '\n'
      · subst feed
        simp [Nat.add_comm]
      · simp [feed]
    · -- Neither the character nor anything behind it lies in front of the offset.
      have none : (startsAfter base (c :: cs)).countP (· ≤ base + offset) = 0 := by
        rw [countP_eq_zero]
        intro start found
        rw [startsAfter] at found
        have behind : base + c.utf8Size ≤ start := by
          split at found
          · rcases mem_cons.mp found with rfl | later
            · exact Nat.le_refl _
            · exact Nat.le_of_lt (lt_of_mem_startsAfter later)
          · exact Nat.le_of_lt (lt_of_mem_startsAfter found)
        rw [decide_eq_true_eq]
        omega
      have clear : 10 ∉ (String.utf8EncodeChar c).take offset := by
        intro found
        obtain rfl := eq_lineFeed_of_mem_utf8EncodeChar (mem_of_mem_take found)
        have zero : offset = 0 := by
          have one : '\n'.utf8Size = 1 := rfl
          omega
        rw [zero] at found
        cases found
      have behind : offset - c.utf8Size = 0 := by omega
      rw [none, count_eq_zero.mpr clear, behind]
      rfl

/-- The line of an offset is the number of line feeds in front of it. -/
theorem lineOf_eq_count (text : List Char) (offset : Nat) :
    (ofText text).lineOf offset = ((bytes text).take (min offset (byteLength text))).count 10 := by
  have later := countP_startsAfter 0 (min offset (byteLength text)) text
  rw [Nat.zero_add] at later
  rw [lineOf, ofText, countP_cons_of_pos (by simp)]
  exact later

/-- Between characters, the line feeds can be counted as characters. -/
theorem lineOf_byteLength (front back : List Char) :
    (ofText (front ++ back)).lineOf (byteLength front) = front.count '\n' := by
  have inside : min (byteLength front) (byteLength (front ++ back)) = (bytes front).length := by
    rw [byteLength_append, length_bytes]
    omega
  rw [lineOf_eq_count, inside, bytes_append, take_left, count_bytes]

/-- In a list in order, what is small enough stands at the first places. -/
theorem le_iff_lt_countP {starts : List Nat} (ordered : starts.Pairwise (· < ·)) {place : Nat}
    (found : starts[place]? = some start) : start ≤ offset ↔ place < starts.countP (· ≤ offset) := by
  induction starts generalizing place with
  | nil => cases found
  | cons first rest ih =>
    obtain ⟨behind, ordered⟩ := pairwise_cons.mp ordered
    rw [countP_cons]
    by_cases small : first ≤ offset
    · rw [if_pos (decide_eq_true small)]
      cases place with
      | zero =>
        obtain rfl := Option.some.inj found
        exact iff_of_true small (Nat.succ_pos _)
      | succ =>
        rw [ih ordered found]
        omega
    · have none : rest.countP (· ≤ offset) = 0 := by
        rw [countP_eq_zero]
        intro later found
        have := behind later found
        rw [decide_eq_true_eq]
        omega
      rw [if_neg (by simpa using small), none]
      refine iff_of_false ?_ (Nat.not_lt_zero _)
      cases place with
      | zero =>
        obtain rfl := Option.some.inj found
        exact small
      | succ =>
        have := behind start (mem_of_getElem? found)
        omega

/-- An offset in the text lies in its line. -/
theorem lineStart_le_lt (inside : offset < byteLength text) :
    let index := ofText text
    index.lineStart (index.lineOf offset) ≤ offset ∧ offset < index.lineStart (index.lineOf offset + 1) := by
  intro index
  have clamp : min offset index.length = offset := Nat.min_eq_left (Nat.le_of_lt inside)
  have ordered : index.starts.Pairwise (· < ·) :=
    .cons (fun _ later => lt_of_mem_startsAfter later) (pairwise_startsAfter 0 text)
  have positive : 0 < index.starts.countP (· ≤ offset) := (le_iff_lt_countP ordered rfl).mp (Nat.zero_le offset)
  have bounded : index.starts.countP (· ≤ offset) ≤ index.starts.length := countP_le_length
  rw [lineOf, clamp]
  constructor
  · have there : index.starts.countP (· ≤ offset) - 1 < index.starts.length := by omega
    rw [lineStart, getElem?_eq_getElem there]
    exact (le_iff_lt_countP ordered (getElem?_eq_getElem there)).mpr (by omega)
  · rw [lineStart, Nat.sub_add_cancel positive]
    cases found : index.starts[index.starts.countP (· ≤ offset)]? with
    | none => exact inside
    | some =>
      exact Nat.lt_of_not_le fun le => Nat.lt_irrefl _ ((le_iff_lt_countP ordered found).mp le)

/-! ## Columns -/

theorem min_length_ofText (front back : List Char) :
    min (byteLength front) (ofText (front ++ back)).length = byteLength front := by
  refine Nat.min_eq_left ?_
  change byteLength front ≤ byteLength (front ++ back)
  rw [byteLength_append]
  exact Nat.le_add_right _ _

/-- Between characters, a line counts the line feeds in front. -/
theorem line_position (front back : List Char) :
    ((ofText (front ++ back)).position (front ++ back) (byteLength front)).line = front.count '\n' + 1 := by
  rw [position, min_length_ofText, lineOf_byteLength]

/-- Between characters, a column counts the characters from the start of the line. -/
theorem column_position {lead tail : List Char} (within : '\n' ∉ tail)
    (starts : lead = [] ∨ ∃ lines, lead = lines ++ ['\n']) (back : List Char) :
    let text := lead ++ tail ++ back
    ((ofText text).position text (byteLength (lead ++ tail))).column = tail.length + 1 := by
  intro text
  have start : (ofText text).lineStart ((lead ++ tail).count '\n') = byteLength lead := by
    rw [count_append, count_eq_zero.mpr within]
    rcases starts with rfl | ⟨lines, rfl⟩
    · rfl
    · have place : (startsAfter 0 text)[lines.count '\n']? = some (byteLength lines + 1) := by
        change (startsAfter 0 (lines ++ ['\n'] ++ tail ++ back))[_]? = _
        rw [append_assoc, append_assoc, startsAfter_append, ← length_startsAfter 0 lines,
          getElem?_append_right (Nat.le_refl _), Nat.sub_self, Nat.zero_add]
        rfl
      rw [count_append, byteLength_append, lineStart]
      change (startsAfter 0 text)[lines.count '\n']?.getD _ = _
      rw [place]
      rfl
  have slice : slice? text (byteLength lead) (byteLength (lead ++ tail)) = some tail := by
    change slice? (lead ++ tail ++ back) _ _ = _
    rw [append_assoc, byteLength_append]
    exact slice?_append lead tail back
  rw [position, min_length_ofText, lineOf_byteLength, start, slice]

/-- Positions follow the order of the text. -/
theorem position_lt {first second : Nat} (here : Boundary text first) (there : Boundary text second)
    (before : first < second) :
    let earlier := (ofText text).position text first
    let later := (ofText text).position text second
    Prod.Lex (· < ·) (· < ·) (earlier.line, earlier.column) (later.line, later.column) := by
  obtain ⟨front, back, rfl, rfl⟩ := here
  obtain ⟨further, rest, same, rfl⟩ := there
  obtain ⟨middle, rfl, rfl⟩ := exists_middle same (Nat.le_of_lt before)
  intro earlier later
  have first : earlier.line = front.count '\n' + 1 := line_position front (middle ++ rest)
  have second : later.line = front.count '\n' + middle.count '\n' + 1 := by
    have line := line_position (front ++ middle) rest
    rwa [append_assoc, count_append] at line
  by_cases feed : '\n' ∈ middle
  · -- A line feed lies between the two.
    have more := count_pos_iff.mpr feed
    refine .left _ _ ?_
    omega
  · obtain ⟨lead, tail, rfl, within, starts⟩ := exists_lastLine front
    have filled : middle ≠ [] := by
      rintro rfl
      rw [append_nil] at before
      exact Nat.lt_irrefl _ before
    have longer : '\n' ∉ tail ++ middle := by
      rw [mem_append, not_or]
      exact ⟨within, feed⟩
    have line : earlier.line = later.line := by
      rw [first, second, count_eq_zero.mpr feed]
    have here := column_position within starts (middle ++ rest)
    have there : later.column = (tail ++ middle).length + 1 := by
      have column := column_position longer starts rest
      rwa [← append_assoc, append_assoc (lead ++ tail)] at column
    rw [line, here, there, length_append]
    exact .right _ (Nat.add_lt_add_right (Nat.lt_add_of_pos_right (length_pos_iff.mpr filled)) 1)

end LineIndex

end ScriptLint
