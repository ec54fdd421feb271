import ScriptLint.Proofs.DisabledText
import ScriptLint.Proofs.LexedLines
import ScriptLint.Proofs.LexerTiles

/-!
# The lexer and preprocessing agree on directives

A run takes a line for a directive, and the lexer takes it for one, at the same offsets. What may divide them lies in
active text only: a string that one of them does not see, a `#` behind something that only the lexer skips, and a
comment that a directive leaves open. Disabled text never divides them, since the lexer starts afresh behind it.
-/

namespace ScriptLint

open Text List

/-- Splitting behind a first part of a text. -/
theorem Text.splitBytes_of_le {bytes : Nat} {front : List Char} (le : byteLength front ≤ bytes) (back : List Char) :
    splitBytes bytes (front ++ back) =
      (front ++ (splitBytes (bytes - byteLength front) back).1, (splitBytes (bytes - byteLength front) back).2) := by
  induction front generalizing bytes with
  | nil => rfl
  | cons _ _ ih =>
    rw [byteLength_cons] at le
    rw [cons_append, splitBytes, if_pos (by omega), ih (by omega), byteLength_cons, Nat.sub_sub]
    rfl

namespace Preprocess

open Lexer

/-! ## Lines and what they leave open -/

namespace Entry

/-- Whether a line of code is tame and its first token is not a directive. Blanks of all kinds and characters that fit
nowhere may stand before a token. -/
def plain (text : List Char) : Bool :=
  Reading.code.tame text && (text.dropWhile fun c => c != '#' && !beginsToken c).head? != some '#'

/-- Whether the lexer reads a line of text as preprocessing does. It does not look into directives for comments, so a
line in a comment that a directive has left open is code to it and must not open another one. -/
def legible (text : List Char) : Entry → Bool
  | code => plain text
  | comment => Reading.comment.tame text
  | directiveComment => plain text && !(scanComments 0 .code text).2

/-- The marks of a text, from where the lexer stands when a line is entered. -/
def marks : Entry → (offset : Nat) → List Char → List Nat
  | code => Lexer.marks true
  | comment => commentMarks
  | directiveComment => Lexer.marks true

@[simp] theorem marks_nil (entry : Entry) (offset : Nat) : entry.marks offset [] = [] := by
  cases entry with
  | code | directiveComment => exact Lexer.marks_nil offset
  | comment => rfl

end Entry

/-- Lines with how each is entered. -/
def entries : Entry → List Line → List (Entry × Line)
  | _, [] => []
  | entry, line :: rest => (entry, line) :: entries (entry.behind line) rest

/-- Whether every line of text outside the disabled ranges is legible. -/
def legible (text : List Char) (disabled : List Span) : Bool :=
  (entries .code (lines text)).all fun (entry, line) =>
    line.isDirective || disabled.any (·.contains line.start) || entry.legible line.text

/-- The directives among some lines, as a run reads them. -/
def directivesOf (lines : List Line) : List Directive :=
  (lines.filter (·.isDirective)).map fun line => Directive.read line.start line.text

variable {entry : Entry} {start : Nat} {text feed more : List Char} {line : Line}

/-! ## Reading a line -/

theorem Entry.marks_behind_directive (entry : Entry) (kind : line.isDirective) :
    (entry.behind line).marks = Lexer.marks true := by
  unfold behind
  rw [kind]
  split <;> rfl

theorem directivesOf_cons (line : Line) (rest : List Line) :
    directivesOf (line :: rest) = directivesOf [line] ++ directivesOf rest := by
  rw [directivesOf, ← singleton_append, filter_append, map_append]
  rfl

theorem byteLength_of_blank {blanks : List Char} (blank : blanks.all isLineBlank) :
    byteLength blanks = blanks.length := by
  refine byteLength_eq_length fun c found => ?_
  have either := all_eq_true.mp blank c found
  rcases (by simpa [isLineBlank] using either) with rfl | rfl <;> rfl

theorem start_directive_read {blanks body : List Char} (blank : blanks.all isLineBlank) :
    (Directive.read start (blanks ++ '#' :: body)).span.start = start + blanks.length := by
  have indent : (blanks ++ '#' :: body).takeWhile isLineBlank = blanks := by
    rw [takeWhile_append_of_pos (all_eq_true.mp blank)]
    simp [isLineBlank]
  simp only [Directive.read, indent]

/-- Directives start at a `#`. -/
theorem exists_hash {directive : Directive} (found : directive ∈ directivesOf (lines text)) :
    ∃ front back, text = front ++ '#' :: back ∧ directive.span.start = byteLength front := by
  obtain ⟨line, isLine, rfl⟩ := mem_map.mp found
  obtain ⟨isLine, kind⟩ := mem_filter.mp isLine
  obtain ⟨entry, front, feed, back, rfl, lies⟩ := (lines_laid text).exists_line isLine
  obtain ⟨blanks, body, shape, blank, _⟩ := lies.shaped.of_directive kind
  refine ⟨front ++ blanks, body ++ (feed ++ back), by simp [shape], ?_⟩
  rw [shape, start_directive_read blank, lies.begins, byteLength_append, byteLength_of_blank blank, Nat.zero_add]

theorem Entry.marks_plain (oneLine : '\n' ∉ text) (clear : plain text) (ends : Ends feed more)
    (offset place : Nat) :
    Lexer.marks true offset (text ++ (feed ++ more)) =
      marksBehind (scanComments place .code text).2 (offset + byteLength text + byteLength feed) more := by
  obtain ⟨calm, other⟩ := Bool.and_eq_true_iff.mp clear
  exact (marks_of_text offset oneLine ends (bne_iff_ne.mp other)).trans
    (Reading.marks_line ends oneLine (fun _ same => by cases same) calm offset place)

/-- Behind a line of text the lexer stands where preprocessing does. -/
theorem Entry.marks_text (kind : line.isDirective = false) (oneLine : '\n' ∉ line.text)
    (clear : entry.legible line.text) (ends : Ends feed more) (offset : Nat) :
    entry.marks offset (line.text ++ (feed ++ more)) =
      (entry.behind line).marks (offset + byteLength line.text + byteLength feed) more := by
  unfold behind
  rw [kind]
  cases entry with
  | code =>
    refine (marks_plain oneLine clear ends offset line.start).trans ?_
    rw [show Scanning.code = code.scanning from rfl]
    cases (scanComments line.start code.scanning line.text).2 <;> rfl
  | comment =>
    refine (Reading.marks_line ends oneLine (fun _ same => by cases same) clear offset line.start).trans ?_
    rw [show Reading.comment.scanning = comment.scanning from rfl]
    cases (scanComments line.start comment.scanning line.text).2 <;> rfl
  | directiveComment =>
    obtain ⟨clear, closed⟩ := Bool.and_eq_true_iff.mp clear
    refine (marks_plain oneLine clear ends offset 0).trans ?_
    rw [show (scanComments 0 .code line.text).2 = false by simpa using closed]
    split <;> rfl

/-- Reading a line marks the directive that it is. -/
theorem Shaped.marks (shaped : Shaped entry line feed) (ends : Ends feed more)
    (clear : line.isDirective = false → entry.legible line.text) :
    entry.marks line.start (line.text ++ (feed ++ more)) = (directivesOf [line]).map (·.span.start) ++
      (entry.behind line).marks (line.start + byteLength line.text + byteLength feed) more := by
  cases shaped with
  | text kind oneLine =>
    have none : directivesOf [line] = [] := by simp [directivesOf, kind]
    rw [none]
    exact Entry.marks_text kind oneLine (clear kind) ends line.start
  | directive kind shape blank whole stops =>
    have one : directivesOf [line] = [Directive.read line.start line.text] := by simp [directivesOf, kind]
    have marked := marks_of_directive line.start blank whole ends stops
    rw [one, Entry.marks_behind_directive .code kind, shape, map_singleton, start_directive_read blank,
      append_assoc]
    exact marked

/-! ## Disabled ranges -/

/-- The marks of a text that disabled ranges divide. Behind each range the lexer starts afresh. -/
def marksAround (entry : Entry) (offset : Nat) : (ranges : List Span) → List Char → List Nat
  | [], cs => entry.marks offset cs
  | range :: ranges, cs =>
    let (window, beyond) := splitBytes (range.start - offset) cs
    entry.marks offset window ++
      marksAround .code range.stop ranges (splitBytes (range.stop - range.start) beyond).2

/-- Ranges that start from an offset on. -/
def AllFrom (offset : Nat) (ranges : List Span) : Prop := ∀ range ∈ ranges, offset ≤ range.start

theorem AllFrom.mono {offset other : Nat} {ranges : List Span} (all : AllFrom offset ranges) (le : other ≤ offset) :
    AllFrom other ranges :=
  fun range found => Nat.le_trans le (all range found)

theorem splitBytes_zero (cs : List Char) : splitBytes 0 cs = ([], cs) := splitBytes_byteLength [] cs

/-- A line before all ranges is read as if there were none. -/
theorem Shaped.marksAround {entry : Entry} {line : Line} {feed more : List Char} {ranges : List Span}
    (shaped : Shaped entry line feed) (ends : Ends feed more)
    (reaches : line.next = line.start + byteLength line.text + byteLength feed) (all : AllFrom line.next ranges)
    (clear : line.isDirective = false → entry.legible line.text) :
    marksAround entry line.start ranges (line.text ++ (feed ++ more)) = (directivesOf [line]).map (·.span.start) ++
      marksAround (entry.behind line) line.next ranges more := by
  cases ranges with
  | nil =>
    rw [Preprocess.marksAround, shaped.marks ends clear, ← reaches]
    rfl
  | cons range =>
    have behind := all range mem_cons_self
    have window : byteLength (line.text ++ feed) ≤ range.start - line.start := by
      rw [byteLength_append]
      omega
    have remaining : range.start - line.start - byteLength (line.text ++ feed) = range.start - line.next := by
      rw [byteLength_append]
      omega
    have endsWithin : Ends feed (splitBytes (range.start - line.next) more).1 := by
      rcases ends with rfl | ⟨rfl, rfl⟩
      · exact .inl rfl
      · exact .inr ⟨rfl, rfl⟩
    rw [← append_assoc, Preprocess.marksAround, splitBytes_of_le window, remaining]
    dsimp only
    rw [append_assoc, shaped.marks endsWithin clear, ← reaches, append_assoc]
    rfl

/-- What a run over a text finds against what the lexer marks there, when the ranges are those that the run adds and a
range may be open that begins before. -/
def Sees (start? : Option Nat) (entry : Entry) (offset : Nat) (ranges : List Span) (text : List Char)
    (found : List Nat) : Prop :=
  match start? with
  | none => AllFrom offset ranges ∧ marksAround entry offset ranges text = found
  | some start => ∃ stop later, ranges = closing (some start) stop ++ later ∧ offset ≤ stop ∧ AllFrom stop later ∧
      marksAround .code stop later (splitBytes (stop - offset) text).2 = found

namespace Sees

variable {start : Nat} {start? : Option Nat} {entry other : Entry} {offset : Nat} {ranges : List Span}
  {front text : List Char} {found : List Nat}

/-- An open range goes on over more text. -/
theorem goOn (sees : Sees (some start) other (offset + byteLength front) ranges text found) :
    Sees (some start) entry offset ranges (front ++ text) found := by
  obtain ⟨stop, later, added, le, all, same⟩ := sees
  refine ⟨stop, later, added, by omega, all, ?_⟩
  rw [splitBytes_of_le (by omega), Nat.sub_sub]
  exact same

theorem opened (sees : Sees (some offset) entry offset ranges text found) (fresh : entry.marks = Entry.code.marks) :
    Sees none entry offset ranges text found := by
  obtain ⟨stop, later, rfl, le, all, same⟩ := sees
  rcases Nat.eq_or_lt_of_le le with rfl | lt
  · rw [Nat.sub_self, splitBytes_zero] at same
    rw [closing, if_neg (Nat.lt_irrefl _), nil_append]
    refine ⟨all, ?_⟩
    rw [← same]
    cases later <;> simp only [marksAround, fresh]
  · rw [closing, if_pos lt, singleton_append]
    refine ⟨forall_mem_cons.mpr ⟨Nat.le_refl _, all.mono le⟩, ?_⟩
    rw [marksAround, Nat.sub_self, splitBytes_zero]
    dsimp only
    rw [Entry.marks_nil]
    exact same

theorem close (sees : Sees none .code offset ranges text found) :
    Sees start? .code offset (closing start? offset ++ ranges) text found := by
  cases start? with
  | none => exact sees
  | some =>
    refine ⟨offset, ranges, rfl, Nat.le_refl _, sees.1, ?_⟩
    rw [Nat.sub_self, splitBytes_zero]
    exact sees.2

end Sees

namespace Run

/-- Every line of text that is not masked is legible. -/
def Clear (masked : Nat → Bool) (entry : Entry) (lines : List Line) : Prop :=
  ∀ entered ∈ entries entry lines, entered.2.isDirective = false → masked entered.2.start = false →
    entered.1.legible entered.2.text = true

/-- The directives that a run meets are those that the lexer marks around the ranges that the run adds. -/
theorem foldl_step_sees {env : Env} {masked : Nat → Bool} {entry : Entry} {start number : Nat}
    {lines : List Line} {text : List Char} (laid : Laid entry start number lines text) (run : Run)
    (marked : run.Marked start)
    (masks : Masks env masked start run lines) (clear : Clear masked entry lines) :
    ∃ ranges,
      ((lines.foldl (step env) run).closeDisabled (start + byteLength text)).result.disabled =
        run.result.disabled ++ ranges ∧
      Sees run.disabledFrom entry start ranges text ((directivesOf lines).map (·.span.start)) := by
  -- In active code the marks of a line come first; in disabled text they are those behind the range that is open.
  induction laid generalizing run with
  | nil entry start =>
    refine ⟨closing run.disabledFrom start, disabled_closeDisabled run start, ?_⟩
    cases run.disabledFrom with
    | none => exact ⟨forall_mem_nil _, Entry.marks_nil entry start⟩
    | some =>
      refine ⟨start, [], (append_nil _).symm, Nat.le_refl _, forall_mem_nil _, ?_⟩
      exact Entry.marks_nil .code start
  | @cons entry line rest feed more shaped ends filled reaches _ later ih =>
    obtain ⟨ranges, added, sees⟩ := ih (step env run line) (step_marked marked filled) (masks.tail filled)
      fun entered found => clear entered (mem_cons_of_mem _ found)
    have stop : line.next + byteLength more = line.start + byteLength (line.text ++ (feed ++ more)) := by
      rw [byteLength_append, byteLength_append]
      omega
    rw [foldl_cons, ← stop, added, directivesOf_cons, map_append]
    cases kind : line.isDirective with
    | false =>
      obtain ⟨disabled, disabledFrom⟩ := ranges_step_of_text env run kind
      rw [disabledFrom] at sees
      refine ⟨ranges, by rw [disabled], ?_⟩
      cases state : run.active with
      | true =>
        have kept : run.passesOver line = false := by rw [passesOver, state, Bool.not_true, Bool.and_false]
        have unmasked := masks.clear later.chained kept line.start (Nat.le_refl _) filled
        rw [marked.none_of_active state] at sees ⊢
        refine ⟨sees.1.mono (Nat.le_of_lt filled), ?_⟩
        rw [← sees.2]
        exact shaped.marksAround ends reaches sees.1 fun _ => clear _ mem_cons_self kind unmasked
      | false =>
        obtain ⟨opened, isOpen, _⟩ := marked.some_of_inactive state
        have none : directivesOf [line] = [] := by simp [directivesOf, kind]
        rw [isOpen, reaches, Nat.add_assoc, ← byteLength_append] at sees
        rw [isOpen, none, ← append_assoc]
        exact sees.goOn
    | true =>
      obtain ⟨disabled, disabledFrom⟩ := ranges_step_of_directive env run kind
      obtain rfl : entry = .code := by
        cases shaped with
        | text text => exact absurd (kind.symm.trans text) Bool.true_eq_false.mp
        | directive => rfl
      have behind : Sees none (Entry.code.behind line) line.next ranges more
          ((directivesOf rest).map (·.span.start)) := by
        rcases disabledFrom with none | some
        · rw [none] at sees
          exact sees
        · rw [some] at sees
          exact sees.opened (Entry.marks_behind_directive .code kind)
      refine ⟨closing run.disabledFrom line.start ++ ranges, by rw [disabled, append_assoc], .close ?_⟩
      refine ⟨behind.1.mono (Nat.le_of_lt filled), ?_⟩
      rw [← behind.2]
      exact shaped.marksAround ends reaches behind.1 fun text => absurd (kind.symm.trans text) Bool.true_eq_false.mp

/-- The directives of a document are those that the lexer marks around its disabled ranges. -/
theorem all_marks (env : Env) (predefined : Macro.Table) (text : List Char) (cache : IncludeCache)
    (clear : legible text (all env predefined text cache).1.disabled) :
    marksAround .code 0 (all env predefined text cache).1.disabled text =
      (directivesOf (lines text)).map (·.span.start) := by
  let initial : Run := { result := { macros := predefined }, cache }
  let masked (place : Nat) : Bool := (all env predefined text cache).1.disabled.any (·.contains place)
  have masks : Masks env masked 0 initial (lines text) := by
    intro place _
    rw [any_eq_true, all_disables]
  have unmasked : Clear masked .code (lines text) := by
    intro entered found kind outside
    have readable : (entered.2.isDirective || masked entered.2.start || entered.1.legible entered.2.text) :=
      all_eq_true.mp clear entered found
    rw [kind, outside, Bool.false_or] at readable
    exact readable
  obtain ⟨ranges, added, sees⟩ := foldl_step_sees (lines_laid text) initial
    ⟨fun _ => rfl, fun inactive => nomatch inactive⟩ masks unmasked
  have disabled : (all env predefined text cache).1.disabled = ranges := by
    rw [Nat.zero_add] at added
    exact (disabled_all env predefined text cache).trans added
  rw [disabled]
  exact sees.2

end Run

end Preprocess

namespace Lexer

/-- Cutting around ranges that are apart marks what there is to mark around them. -/
theorem filterMap_mark?_cutRegions {offset : Nat} {ranges : List Span} {text : List Char}
    (apart : Apart offset ranges text) {fresh afterGap : Bool} (start : (fresh || afterGap)) :
    (cutRegions fresh (regions offset afterGap ranges text)).filterMap Piece.mark? =
      Preprocess.marksAround .code offset ranges text := by
  induction apart generalizing fresh afterGap with
  | nil =>
    simp only [regions, cutRegions, start, append_nil]
    rfl
  | @cons offset range _ front body rest begins reaches filled _ ih =>
    have window : range.start - offset = byteLength (front ++ ['\n']) := by
      rw [begins, byteLength_append, Nat.add_assoc, Nat.add_sub_cancel_left]
      rfl
    have gap : range.stop - range.start = byteLength body := by rw [reaches, Nat.add_sub_cancel_left]
    have ends : ∀ last, (front ++ ['\n']).getLast? = some last → last = '\n' := by
      intro last found
      rw [getLast?_append] at found
      exact (Option.some.inj found).symm
    rw [regions_of_apart begins reaches filled, cutRegions, start, cut_next _ none true offset _ ends]
    rw [filterMap_append, ih (Bool.or_true _), Preprocess.marksAround, window,
      append_cons front '\n' (body ++ rest), splitBytes_byteLength]
    dsimp only
    rw [gap, splitBytes_byteLength]
    rfl

end Lexer

/-- The directives among the tokens of a text start where its pieces are marked. -/
theorem tokenize_marks (text : List Char) (disabled : List Span) :
    ((tokenize text disabled).tokens.filter (·.kind == .directive)).map (·.span.start) =
      (Lexer.pieces text disabled).filterMap Lexer.Piece.mark? := by
  have marked (piece : Lexer.Piece) : piece.mark? =
      (piece.token?.filter (·.kind == .directive)).map (·.span.start) := by
    unfold Lexer.Piece.mark? Lexer.Piece.token?
    cases piece.kind with
    | none => rfl
    | some kind => cases kind <;> rfl
  rw [tokenize, filter_filterMap, map_filterMap]
  exact congrArg (fun mark => (Lexer.pieces text disabled).filterMap mark) (funext fun piece => (marked piece).symm)

/-- The lexer and preprocessing agree on what is a directive, when outside the disabled ranges of a run every line of
text is legible. Each directive that the run handles starts at its `#`. -/
theorem tokenize_directives (setting : Preprocess.Setting) (text : List Char) (path : Option Path)
    (cache : IncludeCache) :
    let disabled := (preprocess setting text path cache).1.disabled
    let directives := Preprocess.directivesOf (Preprocess.lines text)
    (∀ directive ∈ directives, slice? text directive.span.start (directive.span.start + 1) = some ['#']) ∧
      (Preprocess.legible text disabled = true →
        ((tokenize text disabled).tokens.filter (·.kind == .directive)).map (·.span.start) =
          directives.map (·.span.start)) := by
  intro disabled directives
  refine ⟨fun directive found => ?_, fun clear => ?_⟩
  · obtain ⟨front, back, rfl, place⟩ := Preprocess.exists_hash found
    rw [place]
    exact slice?_append front ['#'] back
  · have apart : Apart 0 disabled text := Preprocess.Run.all_apart _ _ _ _
    calc _ = (Lexer.pieces text disabled).filterMap Lexer.Piece.mark? := tokenize_marks text disabled
      _ = Preprocess.marksAround .code 0 disabled text := Lexer.filterMap_mark?_cutRegions apart rfl
      _ = _ := Preprocess.Run.all_marks _ _ text cache clear

/-- A text with a misleading line in its disabled part, a comment that hides a `#`, and a directive that goes on and
leaves a comment open. -/
def hiddenHashSample : List Char :=
  "#ifdef A\n$ #x\n#else\n/* a\n#b */ x = 'c';\n #define D \\\n 1 /* e\n f */\n#endif\n".toList

/-- A setting without files and definitions. -/
def Preprocess.Setting.bare : Preprocess.Setting := ⟨default, ⟨[]⟩, ∅⟩

theorem tokenize_directives_hiddenHash :
    let disabled := (preprocess .bare hiddenHashSample none {}).1.disabled
    Preprocess.legible hiddenHashSample disabled = true ∧
      ((tokenize hiddenHashSample disabled).tokens.filter (·.kind == .directive)).map (·.span.start) =
        (Preprocess.directivesOf (Preprocess.lines hiddenHashSample)).map (·.span.start) := by
  have clear : Preprocess.legible hiddenHashSample (preprocess .bare hiddenHashSample none {}).1.disabled = true := by
    decide +kernel
  exact ⟨clear, (tokenize_directives .bare hiddenHashSample none {}).2 clear⟩

/-- Texts with a comment mark in single quotes, a string that runs on, a form feed or a stray character before a `#`,
and a directive that leaves a comment open. -/
def dividedSamples : List (List Char) :=
  ["'/*'\n#define X 1\n".toList, "\"a\\\n#define X 1\n".toList, "\x0c#define X 1\n".toList,
    "$ #define X 1\n".toList, "#define A /* x\n#define B\n*/\n".toList]

/-- Where the lexer and where preprocessing find directives in a text. -/
def directiveStarts (text : List Char) : List Nat × List Nat :=
  let disabled := (preprocess .bare text none {}).1.disabled
  (((tokenize text disabled).tokens.filter (·.kind == .directive)).map (·.span.start),
    (Preprocess.directivesOf (Preprocess.lines text)).map (·.span.start))

/-- On lines that are not legible the lexer and preprocessing part. -/
theorem tokenize_directives_divided :
    dividedSamples.map directiveStarts = [([5], []), ([], [4]), ([1], []), ([2], []), ([0, 15], [0])] := by
  decide +kernel

end ScriptLint
