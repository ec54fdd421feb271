import ScriptLint.Preprocess.Line
import ScriptLint.Proofs.Bytes
import ScriptLint.Token.Lexer

/-!
# The lines of a text cover it

Grouping physical lines into logical ones neither loses nor repeats a byte: the lines of a document follow one
another without a gap from its start to its end.
-/

namespace ScriptLint

open Text List

/-- Splitting at one character is the library's splitting. -/
theorem Text.splitAtChars_beq (separator : Char) (text : List Char) :
    splitAtChars (· == separator) text = text.splitOn separator := by
  induction text with
  | nil => rfl
  | cons c cs ih =>
    rw [splitAtChars, ih, splitOn_cons_eq_if_modifyHead]
    split
    · rfl
    · cases found : cs.splitOn separator with
      | nil => exact absurd found (splitOn_ne_nil separator cs)
      | cons => rfl

/-- No part of a split text holds the character that it was split at. -/
theorem Text.not_mem_of_mem_splitOn {separator : Char} {text part : List Char} (found : part ∈ text.splitOn separator) :
    separator ∉ part := by
  induction text generalizing part with
  | nil =>
    obtain rfl : part = [] := by simpa using found
    exact not_mem_nil
  | cons c cs ih =>
    rw [splitOn_cons_eq_if_modifyHead] at found
    split at found
    · rcases mem_cons.mp found with rfl | later
      · exact not_mem_nil
      · exact ih later
    · rename_i other
      cases parts : cs.splitOn separator with
      | nil => exact absurd parts (splitOn_ne_nil separator cs)
      | cons first =>
        rw [parts] at found
        rcases mem_cons.mp found with rfl | later
        · have clear : separator ∉ first := ih (parts ▸ mem_cons_self)
          intro held
          rcases mem_cons.mp held with same | held
          · exact other (beq_iff_eq.mpr same.symm)
          · exact clear held
        · exact ih (parts ▸ mem_cons_of_mem first later)

namespace Lexer

/-- What ends a line: a line feed, or the end of the text. -/
def Ends (feed more : List Char) : Prop := feed = ['\n'] ∨ feed = [] ∧ more = []

end Lexer

namespace Preprocess

/-- The bytes that a line takes up, with the line feed that ends it. -/
def Line.extent (line : Line) : Span := ⟨line.start, line.next⟩

/-- Lines that follow one another without a gap, from one offset to another. None of them is empty. -/
def Chained : (start : Nat) → List Line → (stop : Nat) → Prop
  | start, [], stop => start = stop
  | start, line :: rest, stop => line.start = start ∧ line.start < line.next ∧ Chained line.next rest stop

open Lexer

/-! ## Lines and what they leave open -/

/-- How a line is entered: in code, or in a comment that a line of text or a directive has left open. -/
inductive Entry where
  | code
  | comment
  | directiveComment
  deriving Repr, DecidableEq

namespace Entry

def scanning : Entry → Scanning
  | code => .code
  | comment => .comment
  | directiveComment => .comment

/-- How the next line is entered. -/
def behind (entry : Entry) (line : Line) : Entry :=
  if (scanComments line.start entry.scanning line.text).2 then
    if line.isDirective || entry == directiveComment then directiveComment else comment
  else code

end Entry

/-! ## The shape of a line -/

/-- What is known of a line with the line feed behind it, if there is one. -/
inductive Shaped : Entry → Line → (feed : List Char) → Prop where
  | text {entry : Entry} {line : Line} {feed : List Char} (kind : line.isDirective = false)
      (oneLine : '\n' ∉ line.text) : Shaped entry line feed
  | directive {line : Line} {blanks body feed : List Char} (kind : line.isDirective = true)
      (shape : line.text = blanks ++ '#' :: body) (blank : blanks.all isLineBlank = true)
      (whole : directiveLength ['#'] body = body.length)
      (stops : feed ≠ [] → continues (body.reverse ++ ['#']) = false) : Shaped .code line feed

/-- Lines of a known shape that make up a text, from an offset and a line number on. -/
inductive Laid : Entry → (start number : Nat) → List Line → List Char → Prop where
  | nil (entry : Entry) (start number : Nat) : Laid entry start number [] []
  | cons {entry : Entry} {line : Line} {rest : List Line} {feed more : List Char} (shaped : Shaped entry line feed)
      (ends : Ends feed more) (filled : line.start < line.next)
      (reaches : line.next = line.start + byteLength line.text + byteLength feed)
      (remark : line.remark = (scanComments line.start entry.scanning line.text).1)
      (later : Laid (entry.behind line) line.next (line.number + line.text.count '\n' + 1) rest more) :
      Laid entry line.start line.number (line :: rest) (line.text ++ (feed ++ more))

/-- Joining continued lines keeps the text. -/
theorem intercalate_joinContinued (text : List Char) (rest : List (List Char)) :
    ['\n'].intercalate ((joinContinued text rest).1 :: (joinContinued text rest).2) =
      ['\n'].intercalate (text :: rest) := by
  induction rest generalizing text with
  | nil => rfl
  | cons next rest ih =>
    rw [joinContinued]
    split
    · have joined := ih next
      cases after : (joinContinued next rest).2 with
      | nil =>
        rw [after] at joined
        simpa using joined
      | cons =>
        rw [after] at joined
        simpa using joined
    · rfl

theorem mem_of_mem_joinContinued {text line : List Char} {rest : List (List Char)}
    (found : line ∈ (joinContinued text rest).2) : line ∈ rest := by
  induction rest generalizing text with
  | nil => cases found
  | cons next _ ih =>
    rw [joinContinued] at found
    split at found
    · exact mem_cons_of_mem next (ih found)
    · exact found

variable {entry : Entry} {start number : Nat} {text feed : List Char} {line : Line}

theorem Laid.chained {lines : List Line} (laid : Laid entry start number lines text) :
    Chained start lines (start + byteLength text) := by
  induction laid with
  | nil => rfl
  | @cons entry line rest feed more shaped ends filled reaches remark later ih =>
    refine ⟨rfl, filled, ?_⟩
    rw [byteLength_append, byteLength_append, ← Nat.add_assoc, ← Nat.add_assoc, ← reaches]
    exact ih

/-- What is known of one of the lines of a text, from the text in front of it to the text behind its line feed. -/
structure Line.Lies (line : Line) (entry : Entry) (start number : Nat) (front feed back : List Char) : Prop where
  shaped : Shaped entry line feed
  begins : line.start = start + byteLength front
  fresh : front = [] ∨ front.getLast? = some '\n'
  /-- The number of a line counts the line feeds in front of it. -/
  number : line.number = number + front.count '\n'
  filled : line.start < line.next
  ends : Ends feed back
  reaches : line.next = line.start + byteLength line.text + byteLength feed
  remark : line.remark = (scanComments line.start entry.scanning line.text).1

theorem Laid.exists_line {lines : List Line} (laid : Laid entry start number lines text) (found : line ∈ lines) :
    ∃ entry front feed back, text = front ++ (line.text ++ (feed ++ back)) ∧
      line.Lies entry start number front feed back := by
  induction laid with
  | nil => cases found
  | @cons entry first _ feed more shaped ends filled reaches remark _ ih =>
    rcases mem_cons.mp found with rfl | behind
    · exact ⟨entry, [], feed, more, rfl, shaped, rfl, .inl rfl, rfl, filled, ends, reaches, remark⟩
    · obtain ⟨other, front, feedToo, back, rfl, lies⟩ := ih behind
      -- The text does not end in front of a line, which is never empty.
      obtain rfl : feed = ['\n'] := by
        rcases ends with feed | ⟨_, nothing⟩
        · exact feed
        · simp only [append_eq_nil_iff] at nothing
          have filled := lies.filled
          rw [lies.reaches, nothing.2.1, nothing.2.2.1] at filled
          exact absurd filled (Nat.lt_irrefl _)
      refine ⟨other, first.text ++ '\n' :: front, feedToo, back, by simp, lies.shaped, ?_, .inr ?_, ?_, lies.filled,
        lies.ends, lies.reaches, lies.remark⟩
      · rw [lies.begins, reaches, byteLength_append, byteLength_cons, byteLength_cons, byteLength_nil]
        omega
      · rcases lies.fresh with rfl | feedLast
        · simp
        · simp [getLast?_cons, feedLast]
      · rw [lies.number, count_append, count_cons_self]
        omega

theorem Shaped.of_directive (shaped : Shaped entry line feed) (kind : line.isDirective) :
    ∃ blanks body, line.text = blanks ++ '#' :: body ∧ blanks.all isLineBlank ∧
      directiveLength ['#'] body = body.length ∧ (feed ≠ [] → continues (body.reverse ++ ['#']) = false) := by
  cases shaped with
  | text text => cases kind.symm.trans text
  | directive _ shape blank whole stops => exact ⟨_, _, shape, blank, whole, stops⟩

theorem Shaped.of_text (shaped : Shaped entry line feed) (kind : line.isDirective = false) : '\n' ∉ line.text := by
  cases shaped with
  | text _ oneLine => exact oneLine
  | directive directive => cases kind.symm.trans directive

section Joining

/-- A character that is neither a backslash nor a carriage return cuts off what stands before it. -/
theorem continues_append {c : Char} (escape : c ≠ '\\') (carriage : c ≠ '\r') (latest before : List Char) :
    continues (latest ++ c :: before) = continues latest := by
  have by_ends (cs : List Char) :
      continues cs = (cs.head? == some '\\' || cs.head? == some '\r' && cs.tail.head? == some '\\') := by
    match cs with
    | [] => rfl
    | [first] => unfold continues; split <;> simp_all
    | first :: second :: rest => unfold continues; split <;> simp_all
  rw [by_ends, by_ends]
  match latest with
  | [] => simp [escape, carriage]
  | [first] => simp [escape]
  | first :: second :: rest => rfl

theorem continued_eq (text : List Char) : continued text = continues text.reverse := rfl

/-- What stands before a `#` does not matter for how a line goes on. -/
theorem joinContinued_append (blanks body : List Char) (rest : List (List Char)) :
    joinContinued (blanks ++ '#' :: body) rest =
      (blanks ++ '#' :: (joinContinued body rest).1, (joinContinued body rest).2) := by
  have same : continued (blanks ++ '#' :: body) = continued body := by
    rw [continued_eq, reverse_append, reverse_cons, append_assoc]
    exact continues_append (by decide) (by decide) _ _
  cases rest with
  | nil => rfl
  | cons =>
    rw [joinContinued, joinContinued, same]
    split
    · simp
    · rfl

theorem directiveLength_of_oneLine {body : List Char} (oneLine : '\n' ∉ body) (before rest : List Char) :
    directiveLength before (body ++ rest) = body.length + directiveLength (body.reverse ++ before) rest := by
  induction body generalizing before with
  | nil => rw [nil_append, length_nil, Nat.zero_add, reverse_nil, nil_append]
  | cons _ _ ih =>
    obtain ⟨feedFirst, feedLater⟩ := not_or.mp (mt mem_cons.mpr oneLine)
    rw [cons_append, directiveLength, if_neg (by simp [Ne.symm feedFirst]), ih feedLater, length_cons,
      reverse_cons, append_assoc, singleton_append, Nat.add_right_comm]

/-- A directive takes up all lines that it goes on with, and no more. -/
theorem directiveLength_joinContinued {c : Char} (escape : c ≠ '\\') (carriage : c ≠ '\r') (before : List Char)
    {body : List Char} {rest : List (List Char)} (oneLine : '\n' ∉ body) (separate : ∀ line ∈ rest, '\n' ∉ line) :
    let joined := joinContinued body rest
    directiveLength (c :: before) joined.1 = joined.1.length ∧
      (joined.2 ≠ [] → continues (joined.1.reverse ++ c :: before) = false) := by
  induction rest generalizing c before body with
  | nil =>
    have passed := directiveLength_of_oneLine oneLine (c :: before) []
    rw [append_nil] at passed
    exact ⟨passed, fun more => absurd rfl more⟩
  | cons next _ ih =>
    obtain ⟨separateFirst, separateLater⟩ := forall_mem_cons.mp separate
    have goesOn : continues (body.reverse ++ c :: before) = continued body := by
      rw [continues_append escape carriage, continued_eq]
    rw [joinContinued]
    split
    · rename_i continues
      rw [continues] at goesOn
      obtain ⟨whole, stops⟩ := @ih '\n' (by decide) (by decide) (body.reverse ++ c :: before) next separateFirst
        separateLater
      refine ⟨?_, fun more => ?_⟩
      · rw [directiveLength_of_oneLine oneLine, directiveLength, goesOn, if_neg (by simp), whole, length_append,
          length_cons]
      · rw [reverse_append, reverse_cons, append_assoc, append_assoc]
        exact stops more
    · rename_i stops
      have passed := directiveLength_of_oneLine oneLine (c :: before) []
      rw [append_nil] at passed
      exact ⟨passed, fun _ => goesOn.trans (Bool.eq_false_iff.mpr stops)⟩

end Joining

/-! ## The lines of a text -/

/-- The line with a text that some physical lines follow. -/
def lineWith (start number : Nat) (isDirective : Bool) (mode : Scanning) (text : List Char)
    (after : List (List Char)) : Line :=
  ⟨start, number, text, isDirective, (scanComments start mode text).1,
    if after.isEmpty then start + byteLength text else start + byteLength text + 1⟩

/-- The first line of a group when it is a directive. -/
theorem group_of_directive (start number : Nat) {physical : List Char} (rest : List (List Char))
    (directive : startsDirective physical) :
    group start number false (physical :: rest) =
      let joined := joinContinued physical rest
      let line := lineWith start number true .code joined.1 joined.2
      line :: group line.next (number + joined.1.count '\n' + 1) (scanComments start .code joined.1).2 joined.2 := by
  have filled : physical.isEmpty = false := by
    cases physical with
    | nil => exact absurd directive (by decide)
    | cons => rfl
  simp [group, filled, directive, lineWith]

/-- The first line of a group when it is text. -/
theorem group_of_text (start number : Nat) {inComment : Bool} {physical : List Char} {rest : List (List Char)}
    (text : (!inComment && startsDirective physical) = false) (filled : ¬(physical = [] ∧ rest = [])) :
    group start number inComment (physical :: rest) =
      let mode : Scanning := if inComment then .comment else .code
      let line := lineWith start number false mode physical rest
      line :: group line.next (number + physical.count '\n' + 1) (scanComments start mode physical).2 rest := by
  have some : ¬(physical.isEmpty && rest.isEmpty) := by
    intro empty
    exact filled (by simpa using empty)
  rw [group, if_neg some]
  simp only [text, Bool.false_eq_true, ↓reduceIte, lineWith]

/-- A line that starts a directive is a `#` behind blanks. -/
theorem exists_of_startsDirective (directive : startsDirective text) :
    ∃ blanks body, text = blanks ++ '#' :: body ∧ blanks.all isLineBlank := by
  have head := beq_iff_eq.mp directive
  obtain ⟨body, found⟩ := head?_eq_some_iff.mp head
  refine ⟨text.takeWhile isLineBlank, body, ?_, all_takeWhile⟩
  rw [← found, takeWhile_append_dropWhile]

/-- A first line with its line feed, and what is left. -/
theorem exists_feed (start number : Nat) (isDirective : Bool) (mode : Scanning) (text : List Char)
    (after : List (List Char)) :
    ∃ feed, ['\n'].intercalate (text :: after) = text ++ (feed ++ ['\n'].intercalate after) ∧
      Ends feed (['\n'].intercalate after) ∧ (feed ≠ [] → after ≠ []) ∧
      (lineWith start number isDirective mode text after).next = start + byteLength text + byteLength feed ∧
      (¬(text = [] ∧ after = []) → start < (lineWith start number isDirective mode text after).next) := by
  cases after with
  | nil =>
    refine ⟨[], by simp, .inr ⟨rfl, rfl⟩, fun some => absurd rfl some, rfl, fun some => ?_⟩
    exact Nat.lt_add_of_pos_right (byteLength_pos fun empty => some ⟨empty, rfl⟩)
  | cons next rest =>
    refine ⟨['\n'], ?_, .inl rfl, fun _ => cons_ne_nil next rest, rfl, fun _ => ?_⟩
    · rw [intercalate_cons_cons, append_assoc]
    · exact Nat.lt_succ_of_le (Nat.le_add_right _ _)

theorem Entry.scanning_eq (entry : Entry) : entry.scanning = if entry != .code then .comment else .code := by
  cases entry <;> rfl

theorem Entry.behind_ne_code (entry : Entry) (line : Line) :
    (entry.behind line != .code) = (scanComments line.start entry.scanning line.text).2 := by
  unfold behind
  cases (scanComments line.start entry.scanning line.text).2 with
  | false => rfl
  | true =>
    rw [if_pos rfl]
    split <;> rfl

/-- Grouped lines are laid in the text of their physical lines. -/
theorem group_laid (start number : Nat) (entry : Entry) (physical : List (List Char))
    (separate : ∀ line ∈ physical, '\n' ∉ line) :
    Laid entry start number (group start number (entry != .code) physical) (['\n'].intercalate physical) := by
  match physical with
  | [] =>
    rw [group]
    exact .nil entry start number
  | first :: rest =>
    by_cases empty : first = [] ∧ rest = []
    · obtain ⟨rfl, rfl⟩ := empty
      rw [show group start number (entry != .code) [[]] = [] by simp [group]]
      exact .nil entry start number
    obtain ⟨separateFirst, separateLater⟩ := forall_mem_cons.mp separate
    cases kind : !(entry != .code) && startsDirective first with
    | true =>
      obtain ⟨rfl, directive⟩ : entry = .code ∧ startsDirective first := by simpa using kind
      obtain ⟨blanks, body, rfl, blank⟩ := exists_of_startsDirective directive
      have oneLine : '\n' ∉ body := fun found => separateFirst (by simp [found])
      obtain ⟨lengthWhole, stops⟩ :=
        directiveLength_joinContinued (c := '#') (by decide) (by decide) [] oneLine separateLater
      have whole := intercalate_joinContinued (blanks ++ '#' :: body) rest
      have grouped := group_of_directive start number rest directive
      rw [joinContinued_append] at whole grouped
      obtain ⟨feed, split, ends, last, reaches, filled⟩ := exists_feed start number true .code
        (blanks ++ '#' :: (joinContinued body rest).1) (joinContinued body rest).2
      have later := fun line number => group_laid line.next number (Entry.code.behind line) (joinContinued body rest).2
        fun line found => separateLater line (mem_of_mem_joinContinued found)
      simp only [Entry.behind_ne_code] at later
      rw [← whole, split, bne_self_eq_false, grouped]
      exact .cons (.directive rfl rfl blank lengthWhole fun some => stops (last some)) ends (filled (by simp)) reaches
        rfl (later _ _)
    | false =>
      rw [group_of_text start number kind empty]
      obtain ⟨feed, whole, ends, last, reaches, filled⟩ := exists_feed start number false entry.scanning first rest
      have later := fun line number => group_laid line.next number (entry.behind line) rest separateLater
      simp only [Entry.behind_ne_code] at later
      rw [whole, ← Entry.scanning_eq]
      exact .cons (.text rfl separateFirst) ends (filled empty) reaches rfl (later _ _)
termination_by physical.length
decreasing_by
  · exact Nat.lt_succ_self _
  · exact Nat.lt_succ_of_le (length_joinContinued_le _ rest)

/-- The lines of a text are laid in it. -/
theorem lines_laid (text : List Char) : Laid .code 0 0 (lines text) text := by
  have laid := group_laid 0 0 .code (text.splitOn '\n') fun line found => not_mem_of_mem_splitOn found
  rw [intercalate_splitOn, ← splitAtChars_beq] at laid
  exact laid

theorem group_chained (start number : Nat) (inComment : Bool) {physical : List (List Char)}
    (separate : ∀ line ∈ physical, '\n' ∉ line) :
    Chained start (group start number inComment physical) (start + byteLength (['\n'].intercalate physical)) := by
  cases inComment with
  | false => exact (group_laid start number .code physical separate).chained
  | true => exact (group_laid start number .comment physical separate).chained

/-- The lines of a text follow one another from its start to its end. -/
theorem lines_chained (text : List Char) : Chained 0 (lines text) (byteLength text) := by
  have chained := (lines_laid text).chained
  rwa [Nat.zero_add] at chained

end Preprocess

end ScriptLint
