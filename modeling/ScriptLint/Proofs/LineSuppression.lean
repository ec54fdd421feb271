import Mathlib.Data.List.Induction
import ScriptLint.Proofs.Positions
import ScriptLint.Proofs.RunSteps

/-!
# Rules for single lines

Preprocessing counts lines on its own, over directives that take up several of them, while diagnostics are placed by a
line index of the whole text. Both count the same line feeds, so a comment switches codes off on its own line or on the
next one.
-/

namespace ScriptLint

open Text List

/-- The line that codes go off on, for a comment about one line that stands on some line. -/
def Suppression.Action.target? : Action → (line : Nat) → Option Nat
  | .disableLine, line => some line
  | .disableNextLine, line => some (line + 1)
  | .disable, _ => none
  | .enable, _ => none

namespace Preprocess

/-! ## Where a comment stands -/

/-- A comment that runs to the end of a text that begins at an offset. -/
def Remark.Ends (remark : Remark) (offset : Nat) (text : List Char) : Prop :=
  ∃ front, text = front ++ '/' :: '/' :: remark.body ∧ remark.offset = offset + byteLength front

theorem Remark.Ends.behind {remark : Remark} {offset : Nat} {rest : List Char} (front : List Char)
    (ends : remark.Ends (offset + byteLength front) rest) : remark.Ends offset (front ++ rest) := by
  obtain ⟨middle, rfl, place⟩ := ends
  exact ⟨front ++ middle, (append_assoc ..).symm, by rw [place, byteLength_append, Nat.add_assoc]⟩

/-- A comment that a scan finds ends the line. -/
theorem ends_of_scanComments {offset : Nat} {mode : Scanning} {text : List Char} {remark : Remark}
    (found : (scanComments offset mode text).1 = some remark) : remark.Ends offset text := by
  fun_induction scanComments offset mode text with
  | case1 => cases found
  | case2 _ _ ih => exact (ih found).behind ['*', '/']
  | case3 _ c _ _ ih => exact (ih found).behind [c]
  | case4 _ c _ ih =>
    have ends := ih found
    rw [Nat.add_assoc] at ends
    exact ends.behind ['\\', c]
  | case5 _ c _ _ ih => exact (ih found).behind [c]
  | case6 =>
    obtain rfl := Option.some.inj found
    exact ⟨[], rfl, rfl⟩
  | case7 _ _ ih => exact (ih found).behind ['/', '*']
  | case8 _ c _ _ _ ih => exact (ih found).behind [c]

theorem number_eq_count {text : List Char} {line : Line} (found : line ∈ lines text) :
    line.number = ((bytes text).take line.start).count 10 := by
  obtain ⟨_, front, feed, back, rfl, lies⟩ := (lines_laid text).exists_line found
  rw [lies.begins, lies.number, Nat.zero_add, Nat.zero_add, bytes_append, ← length_bytes, take_left, count_bytes]

/-- The number of a line of text is the line of its comment. -/
theorem number_eq_lineOf {text : List Char} {line : Line} {remark : Remark} (found : line ∈ lines text)
    (plain : line.isDirective = false) (commented : line.remark = some remark) :
    line.number = (LineIndex.ofText text).lineOf remark.offset := by
  obtain ⟨_, front, feed, back, rfl, lies⟩ := (lines_laid text).exists_line found
  obtain ⟨lead, split, place⟩ := ends_of_scanComments (lies.remark.symm.trans commented)
  have single := lies.shaped.of_text plain
  rw [split, mem_append, not_or] at single
  have line := LineIndex.lineOf_byteLength (front ++ lead) ('/' :: '/' :: remark.body ++ (feed ++ back))
  rw [byteLength_append, append_assoc, ← append_assoc lead, ← split, count_append,
    count_eq_zero.mpr single.1] at line
  rw [lies.number, place, lies.begins, Nat.zero_add, Nat.zero_add, line]
  rfl

/-! ## The rules of a run -/

namespace Run

variable {env : Env} {run : Run} {rule : Suppression.LineRule}

theorem suppressions_perform (run : Run) (env : Env) (directive : Directive) :
    (run.perform env directive).result.suppressions = run.result.suppressions := by
  unfold perform
  cases directive.keyword with
  | define =>
    dsimp only [define]
    split
    · rfl
    · split <;> rfl
  | undefine =>
    dsimp only [undefine]
    split <;> rfl
  | inclusion =>
    dsimp only [inclusion, enter]
    split
    · rfl
    · split
      · rfl
      · split
        · rfl
        · split <;> rfl
  | _ => rfl

theorem suppressions_handle (run : Run) (env : Env) (directive : Directive) :
    (run.handle env directive).result.suppressions = run.result.suppressions := by
  rcases regroups_or_performs run directive env with ⟨frames, wrong, same⟩ | same <;> rw [same]
  · cases wrong <;> rfl
  · exact suppressions_perform run env directive

theorem suppressions_closeDisabled (run : Run) (stop : Nat) :
    (run.closeDisabled stop).result.suppressions = run.result.suppressions := by
  unfold closeDisabled
  cases run.disabledFrom <;> rfl

theorem suppressions_step_of_directive {line : Line} (directive : line.isDirective) :
    (step env run line).result.suppressions = run.result.suppressions := by
  have handled : (run.handled env line).result.suppressions = run.result.suppressions :=
    (suppressions_handle _ env _).trans (suppressions_closeDisabled run line.start)
  rw [step_eq_of_directive directive]
  split <;> exact handled

/-- A run takes in the comment of a line. -/
structure Takes (run : Run) (line : Line) (remark : Remark) : Prop where
  plain : line.isDirective = false
  active : run.active = true
  found : line.remark = some remark

end Run

open Suppression

/-- A comment on some line makes a rule for a line. -/
def Remark.Makes (remark : Remark) (line : Nat) (rule : LineRule) : Prop :=
  ∃ comment, Comment.read? remark.body = some comment ∧ comment.action.target? line = some rule.line ∧
    rule.codes = CodeSet.ofMention comment.codes

theorem Remark.mem_lines_addComment (remark : Remark) (rules : Suppressions) (line : Nat) (rule : LineRule) :
    rule ∈ (rules.addComment remark.body remark.offset line).lines ↔ rule ∈ rules.lines ∨ remark.Makes line rule := by
  rw [Suppressions.addComment, Makes]
  cases Comment.read? remark.body with
  | none => simp
  | some comment =>
    obtain ⟨action, codes⟩ := comment
    obtain ⟨place, off⟩ := rule
    cases action <;> simp [Suppressions.apply, Suppressions.enable, Action.target?, eq_comm]

namespace Run

theorem mem_lines_step (env : Env) (run : Run) (line : Line) (rule : LineRule) :
    rule ∈ (step env run line).result.suppressions.lines ↔
      rule ∈ run.result.suppressions.lines ∨ ∃ remark, run.Takes line remark ∧ remark.Makes line.number rule := by
  cases directive : line.isDirective with
  | true =>
    rw [suppressions_step_of_directive directive]
    refine (or_iff_left ?_).symm
    rintro ⟨remark, taken, _⟩
    exact Bool.false_ne_true (taken.plain.symm.trans directive)
  | false =>
    rw [step_of_text directive]
    cases active : run.active with
    | false =>
      refine (or_iff_left ?_).symm
      rintro ⟨remark, taken, _⟩
      exact Bool.false_ne_true (active.symm.trans taken.active)
    | true =>
      rw [addRemark]
      cases found : line.remark with
      | none =>
        refine (or_iff_left ?_).symm
        rintro ⟨remark, taken, _⟩
        cases found.symm.trans taken.found
      | some remark =>
        refine (remark.mem_lines_addComment _ _ rule).trans (or_congr_right ⟨fun makes => ?_, ?_⟩)
        · exact ⟨remark, ⟨directive, active, found⟩, makes⟩
        · rintro ⟨other, taken, makes⟩
          obtain rfl := Option.mem_unique found taken.found
          exact makes

/-- The rules for lines behind some lines are those before them and those of the comments that are taken in. -/
theorem mem_lines_foldl (env : Env) (run : Run) (lines : List Line) (rule : LineRule) :
    rule ∈ (lines.foldl (step env) run).result.suppressions.lines ↔
      rule ∈ run.result.suppressions.lines ∨ ∃ before line after remark, lines = before ++ line :: after ∧
        (before.foldl (step env) run).Takes line remark ∧ remark.Makes line.number rule := by
  induction lines generalizing run with
  | nil => simp
  | cons line lines ih =>
    rw [foldl_cons, ih, mem_lines_step, or_assoc]
    refine or_congr_right ⟨?_, ?_⟩
    · rintro (⟨remark, taken, makes⟩ | ⟨before, later, after, remark, rfl, taken, makes⟩)
      · exact ⟨[], line, lines, remark, rfl, taken, makes⟩
      · exact ⟨line :: before, later, after, remark, rfl, taken, makes⟩
    · rintro ⟨before, later, after, remark, split, taken, makes⟩
      cases before with
      | nil =>
        obtain ⟨rfl, rfl⟩ := List.cons.inj split
        exact .inl ⟨remark, taken, makes⟩
      | cons _ before =>
        obtain ⟨rfl, rfl⟩ := List.cons.inj split
        exact .inr ⟨before, later, after, remark, rfl, taken, makes⟩

theorem lines_finish (run : Run) (length : Nat) :
    (run.finish length).1.suppressions.lines = run.result.suppressions.lines := by
  obtain ⟨_, same⟩ := run.exists_reportOpen
  have closed := suppressions_closeDisabled run.reportOpen length
  rw [same] at closed
  rw [finish, same]
  exact (congrArg Suppressions.lines closed :)

/-- A comment of a text that is taken in when the text is preprocessed. -/
def Comments (env : Env) (predefined : Macro.Table) (text : List Char) (cache : IncludeCache)
    (remark : Remark) : Prop :=
  ∃ before line after, lines text = before ++ line :: after ∧
    (before.foldl (step env) { result := { macros := predefined }, cache }).Takes line remark

/-- The number of each line counts the line feeds in front of it, so that each comment is taken in with its own line. A
code is off on a line exactly if a comment for that line or for the next one names it. -/
theorem onLine_iff_comment (env : Env) (predefined : Macro.Table) (text : List Char) (cache : IncludeCache) :
    let index := LineIndex.ofText text
    (∀ line ∈ lines text, line.number = ((bytes text).take line.start).count 10 ∧
      ∀ remark, line.isDirective = false → line.remark = some remark →
        line.number = index.lineOf remark.offset ∧ ∃ front back, text = front ++ '/' :: '/' :: (remark.body ++ back) ∧
          remark.offset = byteLength front ∧ '\n' ∉ remark.body ∧ back.head?.all (· == '\n') = true) ∧
    ∀ code offset, (all env predefined text cache).1.suppressions.onLine code (index.lineOf offset) = true ↔
      ∃ remark comment, Comments env predefined text cache remark ∧ Comment.read? remark.body = some comment ∧
        (CodeSet.ofMention comment.codes).contains code = true ∧
        comment.action.target? (index.lineOf remark.offset) = some (index.lineOf offset) := by
  intro index
  refine ⟨fun line found => ⟨number_eq_count found, fun remark plain commented => ?_⟩, fun code offset => ?_⟩
  · refine ⟨number_eq_lineOf found plain commented, ?_⟩
    obtain ⟨_, front, feed, back, rfl, lies⟩ := (lines_laid text).exists_line found
    obtain ⟨lead, split, place⟩ := ends_of_scanComments (lies.remark.symm.trans commented)
    have single := lies.shaped.of_text plain
    rw [split] at single ⊢
    refine ⟨front ++ lead, feed ++ back, by simp, ?_, fun feed => single (by simp [feed]), ?_⟩
    · rw [place, lies.begins, byteLength_append, Nat.zero_add]
    · rcases lies.ends with rfl | ⟨rfl, rfl⟩ <;> rfl
  · rw [Suppressions.onLine, all, lines_finish, any_eq_true]
    constructor
    · rintro ⟨rule, member, holds⟩
      obtain ⟨same, named⟩ := Bool.and_eq_true_iff.mp holds
      rw [mem_lines_foldl, or_iff_right not_mem_nil] at member
      obtain ⟨before, line, after, remark, split, taken, comment, read, target, codes⟩ := member
      have found : line ∈ lines text := by rw [split]; simp
      refine ⟨remark, comment, ⟨before, line, after, split, taken⟩, read, codes ▸ named, ?_⟩
      rw [← number_eq_lineOf found taken.plain taken.found, target, eq_of_beq same]
    · rintro ⟨remark, comment, ⟨before, line, after, split, taken⟩, read, named, target⟩
      have found : line ∈ lines text := by rw [split]; simp
      rw [← number_eq_lineOf found taken.plain taken.found] at target
      refine ⟨⟨index.lineOf offset, .ofMention comment.codes⟩, (mem_lines_foldl ..).mpr (.inr ?_), ?_⟩
      · exact ⟨before, line, after, remark, split, taken, comment, read, target, rfl⟩
      · rw [named, Bool.and_true]
        exact beq_self_eq_true _

end Run

end Preprocess

end ScriptLint
