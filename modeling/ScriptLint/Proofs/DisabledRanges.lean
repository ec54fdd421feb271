import ScriptLint.Proofs.RunSteps

/-!
# Where disabled ranges lie

The disabled ranges of a document come in order. Each holds whole lines, begins right behind a line feed, and is
divided from the next one by a directive.
-/

namespace ScriptLint

open Text List

/-- Ranges of a text from an offset on, in order and not empty, each right behind a line feed that no range holds. -/
inductive Apart : (offset : Nat) → List Span → List Char → Prop where
  | nil (offset : Nat) (text : List Char) : Apart offset [] text
  | cons {offset : Nat} {range : Span} {ranges : List Span} {front body rest : List Char}
      (begins : range.start = offset + byteLength front + 1) (reaches : range.stop = range.start + byteLength body)
      (filled : body ≠ []) (more : Apart range.stop ranges rest) :
      Apart offset (range :: ranges) (front ++ '\n' :: (body ++ rest))

namespace Apart

variable {offset : Nat} {ranges : List Span} {front text : List Char}

theorem after (apart : Apart (offset + byteLength front) ranges text) : Apart offset ranges (front ++ text) := by
  cases apart with
  | nil => exact .nil offset _
  | cons begins reaches filled more =>
    rw [← append_assoc]
    refine .cons ?_ reaches filled more
    rw [begins, byteLength_append, Nat.add_assoc offset]

theorem filled (apart : Apart offset ranges text) {range : Span} (found : range ∈ ranges) :
    range.start < range.stop := by
  induction apart with
  | nil => cases found
  | cons _ _ filled _ ih =>
    rcases mem_cons.mp found with rfl | later
    · have := byteLength_pos filled
      omega
    · exact ih later

end Apart

namespace Preprocess

/-- What closing an open range adds. -/
def closing (start? : Option Nat) (stop : Nat) : List Span :=
  match start? with
  | none => []
  | some start => if start < stop then [⟨start, stop⟩] else []

/-- Ranges of a text from an offset on, when a range may be open that begins before. -/
def Continues (start? : Option Nat) (offset : Nat) (ranges : List Span) (text : List Char) : Prop :=
  ∃ body rest later, text = body ++ rest ∧ ranges = closing start? (offset + byteLength body) ++ later ∧
    Apart (offset + byteLength body) later rest

namespace Continues

variable {start? : Option Nat} {offset : Nat} {ranges : List Span} {front text : List Char}

theorem apart (continues : Continues none offset ranges text) : Apart offset ranges text := by
  obtain ⟨body, rest, later, rfl, rfl, apart⟩ := continues
  exact apart.after

/-- An open range goes on over more text. -/
theorem goOn (continues : Continues start? (offset + byteLength front) ranges text) :
    Continues start? offset ranges (front ++ text) := by
  obtain ⟨body, rest, later, rfl, rfl, apart⟩ := continues
  refine ⟨front ++ body, rest, later, (append_assoc front body rest).symm, ?_, ?_⟩
  · rw [byteLength_append, Nat.add_assoc]
  · rw [byteLength_append, ← Nat.add_assoc]
    exact apart

theorem opened {feed : List Char} (ends : Lexer.Ends feed text)
    (continues : Continues (some (offset + byteLength (front ++ feed)))
      (offset + byteLength (front ++ feed)) ranges text) :
    Apart offset ranges (front ++ feed ++ text) := by
  obtain ⟨body, rest, later, rfl, rfl, apart⟩ := continues
  by_cases empty : body = []
  · subst empty
    rw [closing, byteLength_nil, Nat.add_zero, if_neg (Nat.lt_irrefl _), nil_append]
    rw [byteLength_nil] at apart
    exact apart.after
  · obtain rfl : feed = ['\n'] := by
      rcases ends with feed | ⟨_, nothing⟩
      · exact feed
      · exact absurd (append_eq_nil_iff.mp nothing).1 empty
    have positive := byteLength_pos empty
    rw [closing, if_pos (Nat.lt_add_of_pos_right positive), singleton_append, append_assoc]
    rw [byteLength_append] at apart ⊢
    exact show Apart offset _ (front ++ '\n' :: (body ++ rest)) from .cons rfl rfl empty apart

end Continues

namespace Run

theorem disabled_closeDisabled (run : Run) (stop : Nat) :
    (run.closeDisabled stop).result.disabled = run.result.disabled ++ closing run.disabledFrom stop := by
  unfold closeDisabled closing
  cases run.disabledFrom with
  | none => rw [append_nil]
  | some =>
    dsimp only
    split
    · rfl
    · rw [append_nil]

theorem ranges_step_of_text (env : Env) (run : Run) {line : Line} (text : line.isDirective = false) :
    (step env run line).result.disabled = run.result.disabled ∧
      (step env run line).disabledFrom = run.disabledFrom :=
  ⟨congrArg Place.disabled (place_step_of_text text), congrArg Place.disabledFrom (place_step_of_text text)⟩

theorem ranges_step_of_directive (env : Env) (run : Run) {line : Line} (directive : line.isDirective) :
    (step env run line).result.disabled = run.result.disabled ++ closing run.disabledFrom line.start ∧
      ((step env run line).disabledFrom = none ∨ (step env run line).disabledFrom = some line.next) := by
  have disabled := (disabled_handled run env line).trans (disabled_closeDisabled run line.start)
  rcases step_of_directive directive with ⟨active, after⟩ | ⟨inactive, after⟩
  · rw [after]
    exact ⟨disabled, .inl (disabledFrom_handled run env line)⟩
  · rw [after]
    exact ⟨disabled, .inr rfl⟩

/-- The ranges that a run adds to those it starts with, up to the end of a text. -/
theorem foldl_step_continues (env : Env) {entry : Entry} {start number : Nat} {lines : List Line} {text : List Char}
    (laid : Laid entry start number lines text) (run : Run) :
    ∃ ranges,
      ((lines.foldl (step env) run).closeDisabled (start + byteLength text)).result.disabled =
        run.result.disabled ++ ranges ∧ Continues run.disabledFrom start ranges text := by
  induction laid generalizing run with
  | nil _ start =>
    refine ⟨closing run.disabledFrom start ++ [], ?_, [], _, _, rfl, rfl, .nil start []⟩
    rw [append_nil]
    exact disabled_closeDisabled run start
  | @cons _ line _ feed more _ ends _ reaches _ _ ih =>
    obtain ⟨ranges, added, continues⟩ := ih (step env run line)
    rw [Nat.add_assoc, ← byteLength_append] at reaches
    have stop : line.next + byteLength more = line.start + byteLength (line.text ++ feed ++ more) := by
      rw [byteLength_append _ more, reaches, Nat.add_assoc]
    rw [foldl_cons, ← append_assoc, ← stop, added]
    rw [reaches] at continues
    cases kind : line.isDirective with
    | false =>
      obtain ⟨disabled, disabledFrom⟩ := ranges_step_of_text env run kind
      rw [disabled]
      rw [disabledFrom] at continues
      exact ⟨ranges, rfl, continues.goOn⟩
    | true =>
      obtain ⟨disabled, disabledFrom⟩ := ranges_step_of_directive env run kind
      rw [disabled, append_assoc]
      refine ⟨_, rfl, [], _, _, rfl, rfl, ?_⟩
      rcases disabledFrom with none | some
      · rw [none] at continues
        exact continues.apart.after
      · rw [some, reaches] at continues
        exact continues.opened ends

theorem disabled_all (env : Env) (predefined : Macro.Table) (text : List Char) (cache : IncludeCache) :
    (all env predefined text cache).1.disabled =
      (((lines text).foldl (step env) { result := { macros := predefined }, cache }).closeDisabled
        (byteLength text)).result.disabled := by
  let final := (lines text).foldl (step env) { result := { macros := predefined }, cache }
  have disabled : final.reportOpen.result.disabled = final.result.disabled :=
    congrArg Place.disabled (place_reportOpen final)
  have disabledFrom : final.reportOpen.disabledFrom = final.disabledFrom :=
    congrArg Place.disabledFrom (place_reportOpen final)
  calc (all env predefined text cache).1.disabled
      = (final.reportOpen.closeDisabled (byteLength text)).result.disabled := rfl
    _ = (final.closeDisabled (byteLength text)).result.disabled := by
      rw [disabled_closeDisabled, disabled_closeDisabled, disabled, disabledFrom]

/-- The disabled ranges of a document are apart. -/
theorem all_apart (env : Env) (predefined : Macro.Table) (text : List Char) (cache : IncludeCache) :
    Apart 0 (all env predefined text cache).1.disabled text := by
  let initial : Run := { result := { macros := predefined }, cache }
  obtain ⟨ranges, added, continues⟩ := foldl_step_continues env (lines_laid text) initial
  have disabled : (all env predefined text cache).1.disabled = ranges := by
    rw [Nat.zero_add] at added
    exact (disabled_all env predefined text cache).trans added
  rw [disabled]
  exact continues.apart

end Run

end Preprocess

end ScriptLint
