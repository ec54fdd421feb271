import ScriptLint.Proofs.Mask
import ScriptLint.Proofs.RunSteps

/-!
# Preprocessing a masked text

A run over a text does not read what it passes over: with the disabled text masked it does the same. Comments are
the one thing that is tracked through disabled lines, and every directive begins outside of them. So the two runs
agree as long as no directive leaves a comment open behind it.
-/

namespace ScriptLint.Preprocess

open Text List

/-- Every directive ends outside a block comment. -/
def DirectivesClosed (lines : List Line) : Prop :=
  ∀ line ∈ lines, line.isDirective = true → (scanComments line.start .code line.text).2 = false

section Joining

variable {masked : Nat → Bool}

theorem byteLength_le_joinContinued (text : List Char) (rest : List (List Char)) :
    byteLength text ≤ byteLength (joinContinued text rest).1 := by
  cases rest with
  | nil => exact Nat.le_refl _
  | cons =>
    rw [joinContinued]
    split
    · rw [byteLength_append]
      exact Nat.le_add_right _ _
    · exact Nat.le_refl _

/-- A directive that is not masked goes on as before; the lines behind it may be masked. -/
theorem joinContinued_maskLines {start : Nat} {text : List Char} {rest : List (List Char)}
    (clear : ∀ place, start ≤ place → place < start + byteLength (joinContinued text rest).1 → masked place = false) :
    joinContinued text (maskLines masked (start + byteLength text + 1) rest) =
      ((joinContinued text rest).1,
        maskLines masked (start + byteLength (joinContinued text rest).1 + 1) (joinContinued text rest).2) := by
  induction rest generalizing start text with
  | nil => rfl
  | cons next rest ih =>
    rw [joinContinued] at clear
    rw [maskLines, joinContinued, joinContinued]
    split
    · rename_i goesOn
      rw [if_pos goesOn] at clear
      have feed : '\n'.utf8Size = 1 := rfl
      simp only [byteLength_append, byteLength_cons] at clear
      have here : mask masked (start + byteLength text + 1) next = next := by
        apply mask_of_clear
        intro place le lt
        have shorter := byteLength_le_joinContinued next rest
        exact clear place (by omega) (by omega)
      have later := @ih (start + byteLength text + 1) next (fun place le lt => clear place (by omega) (by omega))
      rw [here, later]
      simp only [byteLength_append, byteLength_cons, feed, Nat.add_assoc]
    · rfl

end Joining

theorem startsDirective_blank (count : Nat) : startsDirective (List.replicate count ' ') = false := by
  induction count with
  | zero => rfl
  | succ _ ih => exact ih

theorem scanComments_blank (offset count : Nat) :
    scanComments offset .code (List.replicate count ' ') = (none, false) := by
  induction count generalizing offset with
  | zero => rfl
  | succ _ ih => exact ih _

theorem maskLines_next (masked : Nat → Bool) (start number : Nat) (isDirective : Bool) (mode : Scanning)
    (text : List Char) (after : List (List Char)) :
    maskLines masked (start + byteLength text + 1) after =
      maskLines masked (lineWith start number isDirective mode text after).next after := by
  cases after with
  | nil => rfl
  | cons => rfl

theorem isEmpty_maskLines (masked : Nat → Bool) (offset : Nat) (lines : List (List Char)) :
    (maskLines masked offset lines).isEmpty = lines.isEmpty := by
  cases lines <;> rfl

theorem Chained.le_start {start stop : Nat} {lines : List Line} (chained : Chained start lines stop) {line : Line}
    (found : line ∈ lines) : start ≤ line.start := by
  induction lines generalizing start with
  | nil => cases found
  | cons _ _ ih =>
    obtain ⟨rfl, filled, chained⟩ := chained
    rcases mem_cons.mp found with rfl | later
    · exact Nat.le_refl _
    · exact Nat.le_trans (Nat.le_of_lt filled) (ih chained later)

namespace Run

theorem mem_of_mem_passedOver {env : Env} {run : Run} {lines : List Line} {line : Line}
    (found : line ∈ passedOver env run lines) : line ∈ lines := by
  induction lines generalizing run with
  | nil => cases found
  | cons first _ ih =>
    rw [passedOver] at found
    split at found
    · rcases mem_cons.mp found with rfl | later
      · exact mem_cons_self
      · exact mem_cons_of_mem first (ih later)
    · exact mem_cons_of_mem first (ih found)

/-- From an offset on, exactly the bytes of the lines that a run passes over are masked. -/
def Masks (env : Env) (masked : Nat → Bool) (start : Nat) (run : Run) (lines : List Line) : Prop :=
  ∀ place, start ≤ place →
    (masked place = true ↔ ∃ line ∈ passedOver env run lines, line.extent.contains place = true)

namespace Masks

variable {env : Env} {masked : Nat → Bool} {run : Run} {line : Line} {rest : List Line} {start stop : Nat}

variable (masks : Masks env masked line.start run (line :: rest))

include masks

theorem tail (filled : line.start < line.next) : Masks env masked line.next (step env run line) rest := by
  intro place behind
  rw [masks place (by omega), passedOver]
  have outside : line.extent.contains place = false := by
    rw [Bool.eq_false_iff, Ne, Span.contains_iff]
    exact fun inside => absurd inside.2 (Nat.not_lt.mpr behind)
  split
  · simp [outside]
  · rfl

/-- Nothing of a first line is masked that is not passed over. -/
theorem clear (chained : Chained line.next rest stop)
    (kept : run.passesOver line = false) :
    ∀ place, line.start ≤ place → place < line.next → masked place = false := by
  intro place le lt
  rw [Bool.eq_false_iff, Ne, masks place le, passedOver, kept]
  rintro ⟨other, found, inside⟩
  have later := chained.le_start (mem_of_mem_passedOver found)
  rw [Span.contains_iff] at inside
  exact absurd (Nat.le_trans later inside.1) (Nat.not_le.mpr lt)

/-- All of a first line is masked that is passed over. -/
theorem covered (passed : run.passesOver line) :
    ∀ place, line.start ≤ place → place < line.next → masked place := by
  intro place le lt
  rw [masks place le, passedOver, if_pos passed]
  exact ⟨line, mem_cons_self, Span.contains_iff.mpr ⟨le, lt⟩⟩

end Masks

end Run

section FirstLine

variable {masked : Nat → Bool} {start number : Nat} {inComment : Bool} {first : List Char} {rest : List (List Char)}

theorem byteLength_lineWith_le {isDirective : Bool} {mode : Scanning} {text : List Char} {after : List (List Char)} :
    start + byteLength text ≤ (lineWith start number isDirective mode text after).next := by
  rw [lineWith]
  split
  · exact Nat.le_refl _
  · exact Nat.le_succ _

theorem lineWith_maskLines (isDirective : Bool) (mode : Scanning) (text : List Char) (offset : Nat)
    (after : List (List Char)) :
    lineWith start number isDirective mode text (maskLines masked offset after) =
      lineWith start number isDirective mode text after := by
  rw [lineWith, isEmpty_maskLines, lineWith]

variable (start number)

/-- A directive that is not masked is the first line of the masked text too. -/
theorem group_maskLines_of_directive (directive : startsDirective first) :
    let joined := joinContinued first rest
    let line := lineWith start number true .code joined.1 joined.2
    (∀ place, start ≤ place → place < line.next → masked place = false) →
      group start number false (maskLines masked start (first :: rest)) =
        line :: group line.next (number + joined.1.count '\n' + 1) (scanComments start .code joined.1).2
          (maskLines masked line.next joined.2) := by
  intro joined line clear
  have within : ∀ place, start ≤ place → place < start + byteLength joined.1 → masked place = false :=
    fun place le lt => clear place le (Nat.lt_of_lt_of_le lt byteLength_lineWith_le)
  have whole := mask_of_clear masked fun place le lt =>
      within place le (Nat.lt_of_lt_of_le lt (Nat.add_le_add_left (byteLength_le_joinContinued first rest) start))
  rw [maskLines, whole, group_of_directive start number _ directive, joinContinued_maskLines within]
  simp only [lineWith_maskLines, line]
  rw [← maskLines_next masked start number true .code]

/-- A line of text that is not masked is the first line of the masked text too. -/
theorem group_maskLines_of_text (text : (!inComment && startsDirective first) = false)
    (filled : ¬(first = [] ∧ rest = [])) :
    let mode : Scanning := if inComment then .comment else .code
    let line := lineWith start number false mode first rest
    (∀ place, start ≤ place → place < line.next → masked place = false) →
      group start number inComment (maskLines masked start (first :: rest)) =
        line :: group line.next (number + first.count '\n' + 1) (scanComments start mode first).2
          (maskLines masked line.next rest) := by
  intro mode line clear
  have whole := mask_of_clear masked fun place le lt => clear place le (Nat.lt_of_lt_of_le lt byteLength_lineWith_le)
  have filled : ¬(first = [] ∧ maskLines masked (start + byteLength first + 1) rest = []) := by
    rw [← List.isEmpty_iff (l := maskLines masked _ rest), isEmpty_maskLines, List.isEmpty_iff]
    exact filled
  rw [maskLines, whole, group_of_text start number text filled]
  simp only [lineWith_maskLines, line]
  rw [← maskLines_next masked start number false]

/-- A line of text that is masked becomes a blank line, outside comments. -/
theorem group_maskLines_of_masked (oneLine : '\n' ∉ first) (filled : ¬(first = [] ∧ rest = [])) (mode : Scanning) :
    let line := lineWith start number false mode first rest
    (∀ place, start ≤ place → place < line.next → masked place) →
      ∃ blank, blank.isDirective = false ∧
        group start number false (maskLines masked start (first :: rest)) =
          blank :: group line.next (number + first.count '\n' + 1) false (maskLines masked line.next rest) := by
  intro line covered
  have blanked := mask_eq_replicate masked oneLine fun place le lt =>
      covered place le (Nat.lt_of_lt_of_le lt byteLength_lineWith_le)
  have filled : ¬(mask masked start first = [] ∧ maskLines masked (start + byteLength first + 1) rest = []) := by
    rintro ⟨noText, noMore⟩
    have length := congrArg byteLength noText
    rw [byteLength_mask] at length
    refine filled ⟨?_, ?_⟩
    · by_cases some : first = []
      · exact some
      · exact absurd length (Nat.ne_of_gt (byteLength_pos some))
    · rw [← List.isEmpty_iff, ← isEmpty_maskLines masked (start + byteLength first + 1), noMore]
      rfl
  have text : (!false && startsDirective (mask masked start first)) = false := by
    rw [blanked, startsDirective_blank]
    rfl
  refine ⟨lineWith start number false .code (mask masked start first) rest, rfl, ?_⟩
  have noFeed : (mask masked start first).count '\n' = first.count '\n' := by
    rw [count_eq_zero_of_not_mem oneLine, count_eq_zero_of_not_mem (not_mem_mask masked oneLine)]
  have scanned : (scanComments start .code (mask masked start first)).2 = false := by
    rw [blanked, scanComments_blank]
  have next : (lineWith start number false .code (mask masked start first) rest).next = line.next := by
    simp only [lineWith, byteLength_mask, line]
  rw [maskLines, group_of_text start number text filled]
  simp only [lineWith_maskLines, noFeed, Bool.false_eq_true, ↓reduceIte, scanned, next]
  rw [maskLines_next masked start number false mode]

end FirstLine

namespace Run

/-- A run over masked physical lines is the run over the lines themselves. In inactive code the masked lines are
never inside a comment, since every directive begins and ends outside of one. -/
theorem foldl_maskLines {env : Env} {masked : Nat → Bool} (start number : Nat) (inComment : Bool)
    (physical : List (List Char)) (run : Run) (separate : ∀ line ∈ physical, '\n' ∉ line)
    (closed : DirectivesClosed (group start number inComment physical))
    (masks : Masks env masked start run (group start number inComment physical)) :
    (group start number (run.active && inComment) (maskLines masked start physical)).foldl (step env) run =
      (group start number inComment physical).foldl (step env) run := by
  match physical with
  | [] => rw [maskLines, group, group]
  | first :: rest =>
    have chained := group_chained start number inComment separate
    by_cases empty : first = [] ∧ rest = []
    · obtain ⟨rfl, rfl⟩ := empty
      simp [maskLines, mask, group]
    cases kind : !inComment && startsDirective first with
    | true =>
      obtain ⟨rfl, directive⟩ : inComment = false ∧ startsDirective first := by simpa using kind
      rw [group_of_directive start number rest directive] at closed masks chained ⊢
      have ends : (scanComments start .code (joinContinued first rest).1).2 = false :=
        closed _ mem_cons_self rfl
      have same := group_maskLines_of_directive start number directive (masks.clear chained.2.2 rfl)
      have later := foldl_maskLines _ _ _ (joinContinued first rest).2 _
        (fun line found => separate line (mem_cons_of_mem first (mem_of_mem_joinContinued found)))
        (fun line found => closed line (mem_cons_of_mem _ found)) (masks.tail chained.2.1)
      rw [ends, Bool.and_false] at later
      rw [Bool.and_false, same, foldl_cons, foldl_cons, ends]
      exact later
    | false =>
      rw [group_of_text start number kind empty] at closed masks chained ⊢
      have later := foldl_maskLines _ _ _ rest _ (fun line found => separate line (mem_cons_of_mem first found))
        (fun line found => closed line (mem_cons_of_mem _ found)) (masks.tail chained.2.1)
      rw [active_eq_of_place_eq (place_step_of_text rfl)] at later
      cases state : run.active with
      | true =>
        have kept (line : Line) : run.passesOver line = false := by
          rw [passesOver, state, Bool.not_true, Bool.and_false]
        have same := group_maskLines_of_text start number kind empty (masks.clear chained.2.2 (kept _))
        rw [state] at later
        rw [Bool.true_and, same, foldl_cons]
        exact later
      | false =>
        have unread (line : Line) (text : line.isDirective = false) : step env run line = run := by
          rw [step_of_text text, state, if_neg Bool.false_ne_true]
        have oneLine := separate first mem_cons_self
        have passed (mode : Scanning) : run.passesOver (lineWith start number false mode first rest) := by
          rw [passesOver, state]
          rfl
        obtain ⟨blank, text, same⟩ :=
          group_maskLines_of_masked start number oneLine empty _ (masks.covered (passed _))
        rw [state, Bool.false_and, unread _ rfl] at later
        rw [Bool.false_and, same, foldl_cons, foldl_cons, unread blank text, unread _ rfl]
        exact later
termination_by physical.length
decreasing_by
  · exact Nat.lt_succ_self _
  · exact Nat.lt_succ_of_le (length_joinContinued_le first rest)

/-- A run over a text with its disabled bytes masked gives what the run over the text gives. -/
theorem all_mask {env : Env} {predefined : Macro.Table} {text : List Char} {cache : IncludeCache}
    {masked : Nat → Bool} (closed : DirectivesClosed (lines text))
    (exactly : ∀ place, masked place ↔
      ∃ range ∈ (all env predefined text cache).1.disabled, range.contains place) :
    all env predefined (mask masked 0 text) cache = all env predefined text cache := by
  have masks : Masks env masked 0 { result := { macros := predefined }, cache } (lines text) := by
    intro place _
    rw [exactly place, all_disables]
  rw [lines, splitAtChars_beq] at closed masks
  have same := foldl_maskLines 0 0 false (text.splitOn '\n') _ (fun line found => not_mem_of_mem_splitOn found)
    closed masks
  rw [← splitOn_mask, ← splitAtChars_beq, ← splitAtChars_beq] at same
  rw [all, all, byteLength_mask]
  exact congrArg (fun run : Run => run.finish (byteLength text)) same

end Run

end ScriptLint.Preprocess
