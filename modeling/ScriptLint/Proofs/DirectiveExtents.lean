import ScriptLint.Proofs.DirectiveAgreement

/-!
# The lexer and preprocessing agree on where a directive ends

Preprocessing joins physical lines, and the lexer walks on from the `#` character by character. Both end a directive at
the first line feed that no backslash precedes, and leave out a carriage return in front of it.
-/

namespace ScriptLint

open Text List

theorem Text.splitAtChars_append {test : Char → Bool} {front cs part : List Char} {parts : List (List Char)}
    (whole : ∀ c ∈ front, test c = false) (split : splitAtChars test cs = part :: parts) :
    splitAtChars test (front ++ cs) = (front ++ part) :: parts := by
  induction front with
  | nil => exact split
  | cons _ _ ih =>
    obtain ⟨first, later⟩ := forall_mem_cons.mp whole
    rw [cons_append, splitAtChars, first, ih later]
    rfl

namespace Lexer

/-- A region reaches over a text that no range touches. -/
theorem exists_region {offset : Nat} {front : List Char} {ranges : List Span} (filled : front ≠ [])
    (clear : ∀ range ∈ ranges, range.stop ≤ offset ∨ offset + byteLength front ≤ range.start) (afterGap : Bool)
    (back : List Char) :
    ∃ within beyond next others, back = within ++ beyond ∧
      regions offset afterGap ranges (front ++ back) = ⟨offset, front ++ within, next, afterGap⟩ :: others := by
  induction ranges with
  | nil => exact ⟨back, [], none, [], (append_nil back).symm, rfl⟩
  | cons _ _ ih =>
    obtain ⟨first, later⟩ := forall_mem_cons.mp clear
    rw [regions]
    split
    · exact ih later
    · have positive := byteLength_pos filled
      rw [if_neg (by omega), splitBytes_of_le (by omega)]
      exact ⟨_, _, _, _, (splitBytes_append _ back).symm, rfl⟩

/-- The first token of a region that a directive begins. -/
theorem token?_directive {body within : List Char} (ends : directiveLength ['#'] (body ++ within) = body.length)
    (next : Option Char) (hash : Nat) :
    ((cut next true hash ('#' :: (body ++ within))).1.head?.bind Piece.token?).map
        (fun token => (token.kind, token.span)) =
      some (.directive, ⟨hash, hash + byteLength ('#' :: body.take (withoutReturn body.length body))⟩) := by
  have same : withoutReturn body.length (body ++ within) = withoutReturn body.length body := by
    simp only [withoutReturn, take_left, take_length]
  have le : withoutReturn body.length body ≤ body.length := by
    unfold withoutReturn
    split <;> omega
  have lexeme : Lexeme.classify true next '#' (body ++ within) =
      .good .directive (withoutReturn (directiveLength ['#'] (body ++ within)) (body ++ within)) := rfl
  rw [cut, if_neg (by decide), lexeme, ends, same]
  simp [Lexeme.good, Piece.token?, Piece.span, take_append_of_le_length le]

end Lexer

namespace Preprocess

open Lexer

variable {blanks : List Char} (blank : blanks.all isLineBlank) (start : Nat)

include blank

theorem byteLength_indented (body : List Char) :
    start + byteLength (blanks ++ '#' :: body) = start + blanks.length + byteLength ('#' :: body) := by
  rw [byteLength_append, byteLength_of_blank blank, ← Nat.add_assoc]

theorem span_directive_read (body : List Char) :
    (Directive.read start (blanks ++ '#' :: body)).span =
      ⟨start + blanks.length,
        start + blanks.length + byteLength ('#' :: body.take (withoutReturn body.length body))⟩ := by
  have last : ((blanks ++ '#' :: body).getLast? == some '\r') = (body.getLast? == some '\r') := by
    rw [getLast?_append, getLast?_cons]
    cases body.getLast? <;> rfl
  refine (congrArg (Span.mk · _) (start_directive_read blank)).trans (congrArg _ ?_)
  rw [last, byteLength_indented blank, withoutReturn, take_length]
  split
  · next returns =>
    obtain ⟨front, rfl⟩ := getLast?_eq_some_iff.mp (beq_iff_eq.mp returns)
    rw [length_append, length_singleton, Nat.add_sub_cancel, take_left, ← cons_append, byteLength_append]
    rfl
  · rw [take_length]

/-- Grouping takes the first line of a text for a directive. What follows its lines is behind a line feed that no
backslash precedes. -/
theorem exists_group_directive (number : Nat) (after : List Char) :
    ∃ line others body behind,
      group start number false (splitAtChars (· == '\n') (blanks ++ '#' :: after)) = line :: others ∧
      line.isDirective ∧ line.start = start ∧ line.text = blanks ++ '#' :: body ∧ after = body ++ behind ∧
      ∀ within beyond, behind = within ++ beyond → directiveLength ['#'] (body ++ within) = body.length := by
  have plain : ∀ c ∈ blanks ++ ['#'], (c == '\n') = false := by
    intro c found
    rw [beq_eq_false_iff_ne]
    rintro rfl
    rcases mem_append.mp found with found | found
    · exact absurd (all_eq_true.mp blank _ found) (by decide)
    · exact absurd found (by decide)
  cases parts : after.splitOn '\n' with
  | nil => exact absurd parts (splitOn_ne_nil '\n' after)
  | cons first rest =>
    obtain ⟨oneLine, later⟩ := forall_mem_cons.mp fun line (found : line ∈ first :: rest) =>
      not_mem_of_mem_splitOn (parts ▸ found)
    have whole := intercalate_joinContinued first rest
    obtain ⟨long, stops⟩ := directiveLength_joinContinued (c := '#') (by decide) (by decide) [] oneLine later
    obtain ⟨feed, split, ends, last, -, -⟩ := exists_feed start number true .code (joinContinued first rest).1
      (joinContinued first rest).2
    rw [← parts, intercalate_splitOn, split] at whole
    have directive : startsDirective (blanks ++ '#' :: first) := by
      rw [startsDirective, dropWhile_append_of_pos (all_eq_true.mp blank)]
      rfl
    rw [append_cons, splitAtChars_append plain ((splitAtChars_beq '\n' after).trans parts), ← append_cons,
      group_of_directive start number rest directive, joinContinued_append]
    refine ⟨_, _, _, _, rfl, rfl, rfl, rfl, whole.symm, fun within beyond inside => ?_⟩
    cases within with
    | nil => rwa [append_nil]
    | cons c within =>
      rcases ends with rfl | ⟨rfl, nothing⟩
      · obtain rfl := (List.cons.inj inside).1
        exact directiveLength_append long (stops (last (cons_ne_nil _ _))) within
      · rw [nothing] at inside
        cases inside

/-- A directive line ends where the lexer ends a directive that starts at its `#`, unless a disabled range starts before
that end, and the directive and the token have the same span. -/
theorem directive_extents (number : Nat) (after : List Char) :
    ∃ line others, group start number false (splitAtChars (· == '\n') (blanks ++ '#' :: after)) = line :: others ∧
      line.isDirective = true ∧
      let hash := start + blanks.length
      let stop := line.start + byteLength line.text
      ∀ ranges afterGap, (∀ range ∈ ranges, range.stop ≤ hash ∨ stop ≤ range.start) →
        ∃ window next others,
          regions hash afterGap ranges ('#' :: after) = ⟨hash, '#' :: window, next, afterGap⟩ :: others ∧
          hash + byteLength ('#' :: window.take (directiveLength ['#'] window)) = stop ∧
          ((cut next true hash ('#' :: window)).1.head?.bind Piece.token?).map (fun token => (token.kind, token.span)) =
            some (.directive, (Directive.read line.start line.text).span) := by
  obtain ⟨line, others, body, behind, grouped, kind, begins, text, rfl, long⟩ :=
    exists_group_directive blank start number after
  refine ⟨line, others, grouped, kind, ?_⟩
  rw [begins, text, byteLength_indented blank, span_directive_read blank]
  intro hash stop ranges afterGap clear
  obtain ⟨within, beyond, next, others, inside, found⟩ :=
    exists_region (cons_ne_nil '#' body) clear afterGap behind
  have length := long within beyond inside
  refine ⟨body ++ within, next, others, found, ?_, token?_directive length next hash⟩
  rw [length, take_left]

omit blank in
theorem directive_extents_continued :
    let after := "a\\\r\nb\\\n\rc\r\nd".toList
    ∃ window next others,
      regions 5 false [⟨0, 4⟩, ⟨17, 18⟩] ('#' :: after) = ⟨5, '#' :: window, next, false⟩ :: others ∧
      5 + byteLength ('#' :: window.take (directiveLength ['#'] window)) = 16 ∧
      ((cut next true 5 ('#' :: window)).1.head?.bind Piece.token?).map (fun token => (token.kind, token.span)) =
        some (.directive, ⟨5, 15⟩) := by
  intro after
  obtain ⟨line, others, grouped, -, agree⟩ := @directive_extents [' ', ' '] rfl 3 0 after
  have parts : splitAtChars (· == '\n') ([' ', ' '] ++ '#' :: after) =
      ["  #a\\\r".toList, "b\\".toList, "\rc\r".toList, "d".toList] := rfl
  rw [parts, group_of_directive 3 0 _ rfl] at grouped
  obtain ⟨rfl, -⟩ := List.cons.inj grouped
  exact agree [⟨0, 4⟩, ⟨17, 18⟩] false (by decide)

end Preprocess

end ScriptLint
