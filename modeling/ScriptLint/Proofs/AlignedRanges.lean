import ScriptLint.Proofs.DirectiveAgreement

/-!
# Disabled ranges and directive lines

A directive is visible wherever it stands: it closes the disabled range before it, and a range opens only behind it.
So the disabled ranges of a document are whole lines between directives. They come in order with a directive between
any two of them, which is what looking an offset up in them relies on.
-/

namespace ScriptLint

open Text List

namespace Preprocess

/-! ## Directive lines -/

/-- The lines of a text that are directives, each with the lines that it goes on over. -/
def directiveLines (text : List Char) : List Line := (lines text).filter (·.isDirective)

/-- The line begins a text that starts at an offset, or follows a line feed of it, and is a directive there: blanks and
a `#`, up to the first line feed that no backslash precedes. -/
def Line.DirectiveIn (line : Line) (offset : Nat) (text : List Char) : Prop :=
  ∃ front blanks body back, text = front ++ (blanks ++ '#' :: (body ++ back)) ∧
    (front = [] ∨ front.getLast? = some '\n') ∧ blanks.all isLineBlank = true ∧
    Lexer.directiveLength ['#'] (body ++ back) = body.length ∧ line.start = offset + byteLength front ∧
    line.next = min (line.start + byteLength (blanks ++ '#' :: body) + 1) (offset + byteLength text)

/-- A directive line is as long as the directive at the front of its text. -/
theorem directiveLength_of_ends {body feed more : List Char} (whole : Lexer.directiveLength ['#'] body = body.length)
    (ends : Lexer.Ends feed more) (stops : feed ≠ [] → Lexer.continues (body.reverse ++ ['#']) = false) :
    Lexer.directiveLength ['#'] (body ++ (feed ++ more)) = body.length := by
  rcases ends with rfl | ⟨rfl, rfl⟩
  · exact Lexer.directiveLength_append whole (stops (cons_ne_nil _ _)) more
  · rw [append_nil, append_nil]
    exact whole

theorem directiveIn_of_mem_directiveLines {text : List Char} {line : Line} (found : line ∈ directiveLines text) :
    line.DirectiveIn 0 text := by
  obtain ⟨isLine, kind⟩ := mem_filter.mp found
  obtain ⟨entry, front, feed, back, rfl, lies⟩ := (lines_laid text).exists_line isLine
  obtain ⟨blanks, body, shape, blank, whole, stops⟩ := lies.shaped.of_directive kind
  refine ⟨front, blanks, body, feed ++ back, by simp [shape], lies.fresh, blank,
    directiveLength_of_ends whole lies.ends stops, lies.begins, ?_⟩
  have feedSize : '\n'.utf8Size = 1 := rfl
  have begins := lies.begins
  rw [lies.reaches, ← shape, byteLength_append, byteLength_append, byteLength_append]
  rcases lies.ends with rfl | ⟨rfl, rfl⟩
  · simp only [byteLength_cons, byteLength_nil]
    omega
  · simp only [byteLength_nil]
    omega

/-! ## The ranges between directives -/

/-- The ranges that a run adds over some lines, up to an offset, when a range may be open before them. A directive
closes the open range, and another one may open behind it. -/
inductive Divides : Option Nat → List Line → (stop : Nat) → List Span → Prop where
  | nil (start? : Option Nat) (stop : Nat) : Divides start? [] stop (closing start? stop)
  | text {start? : Option Nat} {line : Line} {rest : List Line} {stop : Nat} {ranges : List Span}
      (kind : line.isDirective = false) (more : Divides start? rest stop ranges) :
      Divides start? (line :: rest) stop ranges
  | directive {start? next? : Option Nat} {line : Line} {rest : List Line} {stop : Nat} {ranges : List Span}
      (kind : line.isDirective = true) (opens : ∀ next ∈ next?, next = line.next)
      (more : Divides next? rest stop ranges) :
      Divides start? (line :: rest) stop (closing start? line.start ++ ranges)

theorem Run.foldl_step_divides (env : Env) (lines : List Line) (run : Run) (stop : Nat) :
    ∃ ranges,
      ((lines.foldl (step env) run).closeDisabled stop).result.disabled = run.result.disabled ++ ranges ∧
        Divides run.disabledFrom lines stop ranges := by
  induction lines generalizing run with
  | nil => exact ⟨_, disabled_closeDisabled run stop, .nil _ _⟩
  | cons line _ ih =>
    obtain ⟨ranges, added, divides⟩ := ih (step env run line)
    rw [foldl_cons, added]
    cases kind : line.isDirective with
    | false =>
      obtain ⟨disabled, disabledFrom⟩ := ranges_step_of_text env run kind
      rw [disabled]
      rw [disabledFrom] at divides
      exact ⟨ranges, rfl, .text kind divides⟩
    | true =>
      obtain ⟨disabled, disabledFrom⟩ := ranges_step_of_directive env run kind
      rw [disabled, append_assoc]
      refine ⟨_, rfl, .directive kind ?_ divides⟩
      intro next found
      rcases disabledFrom with none | some
      · rw [none] at found
        cases found
      · rw [some] at found
        exact (Option.mem_some.mp found).symm

theorem eq_of_mem_closing {start? : Option Nat} {stop : Nat} {range : Span} (found : range ∈ closing start? stop) :
    range.start ∈ start? ∧ range.stop = stop := by
  cases start? with
  | none => cases found
  | some =>
    rw [closing] at found
    split at found
    · obtain rfl := mem_singleton.mp found
      exact ⟨rfl, rfl⟩
    · cases found

theorem pairwise_closing (related : Span → Span → Prop) (start? : Option Nat) (stop : Nat) :
    (closing start? stop).Pairwise related := by
  cases start? with
  | none => exact .nil
  | some =>
    rw [closing]
    split
    · exact pairwise_singleton related _
    · exact .nil

namespace Divides

variable {start? : Option Nat} {start stop : Nat} {lines : List Line} {ranges : List Span} {range : Span}

/-- A range ends where the lines end, or at a directive. -/
theorem stop_eq (divides : Divides start? lines stop ranges) (found : range ∈ ranges) :
    range.stop = stop ∨ ∃ line ∈ lines.filter (·.isDirective), range.stop = line.start := by
  induction divides with
  | nil => exact .inl (eq_of_mem_closing found).2
  | text kind _ ih => simpa [kind] using ih found
  | @directive _ _ line _ _ _ kind _ _ ih =>
    rw [filter_cons_of_pos kind]
    rcases mem_append.mp found with closed | later
    · exact .inr ⟨line, mem_cons_self, (eq_of_mem_closing closed).2⟩
    · rcases ih later with atEnd | ⟨other, isLine, ends⟩
      · exact .inl atEnd
      · exact .inr ⟨other, mem_cons_of_mem line isLine, ends⟩

/-- No range begins before the lines, unless it was open. -/
theorem le_start (divides : Divides start? lines stop ranges) (chained : Chained start lines stop) {least : Nat}
    (behind : ∀ opened ∈ start?, least ≤ opened) (le : least ≤ start) (found : range ∈ ranges) :
    least ≤ range.start := by
  induction divides generalizing start with
  | nil => exact behind _ (eq_of_mem_closing found).1
  | text _ _ ih =>
    obtain ⟨rfl, filled, chained⟩ := chained
    exact ih chained behind (by omega) found
  | @directive _ _ _ _ _ _ _ opens _ ih =>
    obtain ⟨rfl, filled, chained⟩ := chained
    rcases mem_append.mp found with closed | later
    · exact behind _ (eq_of_mem_closing closed).1
    · refine ih chained ?_ (by omega) later
      intro opened isOpened
      rw [opens opened isOpened]
      omega

/-- Behind a directive every range begins where the directive ends or later. -/
theorem next_le_start {next? : Option Nat} {line : Line} {rest : List Line} (divides : Divides next? rest stop ranges)
    (opens : ∀ next ∈ next?, next = line.next) (chained : Chained line.next rest stop) (found : range ∈ ranges) :
    line.next ≤ range.start :=
  divides.le_start chained (fun next isNext => Nat.le_of_eq (opens next isNext).symm) (Nat.le_refl _) found

/-- No range holds a part of a directive. -/
theorem clear (divides : Divides start? lines stop ranges) (chained : Chained start lines stop) (found : range ∈ ranges)
    {line : Line} (isLine : line ∈ lines.filter (·.isDirective)) :
    line.next ≤ range.start ∨ range.stop ≤ line.start := by
  induction divides generalizing start with
  | nil => cases isLine
  | text kind _ ih =>
    obtain ⟨rfl, filled, chained⟩ := chained
    exact ih chained found (by simpa [kind] using isLine)
  | @directive _ _ first _ _ _ kind opens more ih =>
    obtain ⟨rfl, filled, chained⟩ := chained
    rw [filter_cons_of_pos kind] at isLine
    rcases mem_append.mp found with closed | later
    · -- The range ends at the first directive, and every other one stands behind that.
      have ends := (eq_of_mem_closing closed).2
      have le : first.start ≤ line.start := by
        rcases mem_cons.mp isLine with rfl | isLine
        · exact Nat.le_refl _
        · have := chained.le_start (mem_filter.mp isLine).1
          omega
      exact .inr (ends ▸ le)
    · rcases mem_cons.mp isLine with rfl | isLine
      · exact .inl (more.next_le_start opens chained later)
      · exact ih chained later isLine

/-- Two ranges have a directive between them. -/
theorem divided (divides : Divides start? lines stop ranges) (chained : Chained start lines stop) :
    ranges.Pairwise fun first second =>
      ∃ line ∈ lines.filter (·.isDirective), first.stop ≤ line.start ∧ line.next ≤ second.start := by
  induction divides generalizing start with
  | nil => exact pairwise_closing _ _ _
  | text kind _ ih =>
    obtain ⟨rfl, filled, chained⟩ := chained
    rw [filter_cons_of_neg (by simp [kind])]
    exact ih chained
  | @directive _ _ line _ _ _ kind opens more ih =>
    obtain ⟨rfl, filled, chained⟩ := chained
    rw [filter_cons_of_pos kind]
    refine pairwise_append.mpr ⟨pairwise_closing _ _ _, ?_, ?_⟩
    · refine (ih chained).imp ?_
      rintro first second ⟨other, isLine, between⟩
      exact ⟨other, mem_cons_of_mem line isLine, between⟩
    · intro first closed second later
      have ends := (eq_of_mem_closing closed).2
      exact ⟨line, mem_cons_self, Nat.le_of_eq ends, more.next_le_start opens chained later⟩

end Divides

end Preprocess

/-! ## Whole ranges -/

namespace Apart

variable {offset : Nat} {ranges : List Span} {text : List Char} {range : Span}

theorem stop_le (apart : Apart offset ranges text) (found : range ∈ ranges) :
    range.stop ≤ offset + byteLength text := by
  induction apart with
  | nil => cases found
  | @cons offset first _ front body rest _ _ _ _ ih =>
    have whole : offset + byteLength (front ++ '\n' :: (body ++ rest)) = first.stop + byteLength rest := by
      have feedSize : '\n'.utf8Size = 1 := rfl
      simp only [byteLength_append, byteLength_cons]
      omega
    rw [whole]
    rcases mem_cons.mp found with rfl | later
    · exact Nat.le_add_right _ _
    · exact ih later

/-- A range begins right behind a line feed. -/
theorem exists_feed (apart : Apart offset ranges text) (found : range ∈ ranges) :
    ∃ front back, text = front ++ '\n' :: back ∧ range.start = offset + byteLength front + 1 := by
  induction apart with
  | nil => cases found
  | @cons _ _ _ front body rest begins _ _ _ ih =>
    rcases mem_cons.mp found with rfl | later
    · exact ⟨front, body ++ rest, rfl, begins⟩
    · obtain ⟨before, back, rfl, place⟩ := ih later
      refine ⟨front ++ '\n' :: (body ++ before), back, by simp, ?_⟩
      have feedSize : '\n'.utf8Size = 1 := rfl
      simp only [byteLength_append, byteLength_cons]
      omega

end Apart

/-- Where ranges come in order, the first one that ends behind an offset is the only one that can hold it. -/
theorem Preprocessed.isDisabled_iff {result : Preprocessed}
    (sorted : result.disabled.Pairwise fun first second => first.stop ≤ second.start) (offset : Nat) :
    result.isDisabled offset ↔ ∃ range ∈ result.disabled, range.contains offset := by
  unfold isDisabled
  generalize result.disabled = ranges at sorted ⊢
  induction ranges with
  | nil => simp
  | cons range ranges ih =>
    obtain ⟨before, sorted⟩ := pairwise_cons.mp sorted
    simp only [mem_cons, exists_eq_or_imp, find?_cons]
    cases ends : decide (offset < range.stop) with
    | true =>
      have ends := of_decide_eq_true ends
      have later : ¬∃ other ∈ ranges, other.contains offset := by
        rintro ⟨other, found, holds⟩
        have := before other found
        have := (Span.contains_iff.mp holds).1
        omega
      rw [or_iff_left later]
      simp [Span.contains_iff, ends]
    | false =>
      have ends := of_decide_eq_false ends
      rw [ih sorted]
      simp [Span.contains_iff, ends]

namespace Preprocess

/-- Ranges of a text that are whole lines between its directive lines. -/
structure Aligned (text : List Char) (ranges : List Span) : Prop where
  filled : ∀ range ∈ ranges, range.start < range.stop
  within : ∀ range ∈ ranges, range.stop ≤ byteLength text
  sorted : ranges.Pairwise fun first second => first.stop < second.start
  /-- A directive line stands between any two of them. -/
  divided : ranges.Pairwise fun first second =>
    ∃ line ∈ directiveLines text, first.stop ≤ line.start ∧ line.next ≤ second.start
  /-- Each begins right behind a line feed. -/
  begins : ∀ range ∈ ranges, ∃ front back, text = front ++ '\n' :: back ∧ range.start = byteLength front + 1
  /-- Each ends where a directive line begins, or with the text. -/
  ends : ∀ range ∈ ranges, range.stop = byteLength text ∨ ∃ line ∈ directiveLines text, range.stop = line.start
  /-- None of them meets a directive line. -/
  clear : ∀ range ∈ ranges, ∀ line ∈ directiveLines text, line.next ≤ range.start ∨ range.stop ≤ line.start

theorem Run.all_aligned (env : Env) (predefined : Macro.Table) (text : List Char) (cache : IncludeCache) :
    Aligned text (all env predefined text cache).1.disabled := by
  let start : Run := { result := { macros := predefined }, cache }
  obtain ⟨ranges, added, divides⟩ := foldl_step_divides env (lines text) start (byteLength text)
  have apart := all_apart env predefined text cache
  have disabled := (disabled_all env predefined text cache).trans added
  rw [disabled] at apart ⊢
  have chained := lines_chained text
  have divided := divides.divided chained
  refine ⟨fun _ => apart.filled, ?_, ?_, divided, ?_, fun _ => divides.stop_eq, ?_⟩
  · intro range found
    simpa using apart.stop_le found
  · refine divided.imp ?_
    rintro first second ⟨line, isLine, behind, before⟩
    obtain ⟨_, _, _, _, _, lies⟩ := (lines_laid text).exists_line (mem_filter.mp isLine).1
    have filled := lies.filled
    omega
  · intro range found
    simpa using apart.exists_feed found
  · intro range found line isLine
    exact divides.clear chained found isLine

end Preprocess

/-- The disabled ranges of a document are in order, not empty and made of whole lines. Directive lines stand between
them and are never part of one, whatever they go on over. An offset is disabled if and only if a range holds it. -/
theorem preprocess_aligned (setting : Preprocess.Setting) (text : List Char) (path : Option Path)
    (cache : IncludeCache) :
    let result := (preprocess setting text path cache).1
    Preprocess.Aligned text result.disabled ∧
      (∀ line ∈ Preprocess.directiveLines text, line.DirectiveIn 0 text) ∧
      ∀ offset, result.isDisabled offset = true ↔ ∃ range ∈ result.disabled, range.contains offset = true := by
  intro result
  have aligned : Preprocess.Aligned text result.disabled := Preprocess.Run.all_aligned _ _ text cache
  have sorted := aligned.sorted.imp Nat.le_of_lt
  exact ⟨aligned, fun _ => Preprocess.directiveIn_of_mem_directiveLines, result.isDisabled_iff sorted⟩

end ScriptLint
