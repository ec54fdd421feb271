import Mathlib.Data.List.Infix
import ScriptLint.Proofs.DefinitionText
import ScriptLint.Proofs.DirectiveAgreement
import ScriptLint.Proofs.IncludeRuns

/-!
# The text of directives

The arguments of a directive are read with continued lines joined and comments taken out. Up to the first place where
one of the two happens they are read as they are written, and there an offset in what is read is an offset in the
document.
-/

namespace ScriptLint.Preprocess

open Text List

/-! ## Arguments as they are written -/

/-- The text without the backslashes that continue lines. -/
def joined (raw : List Char) : List Char := joinFeeds (joinReturns raw)

/-- A text whose first character is not kept when lines are joined. Before a carriage return two backslashes go: the
first one then stands before the line feed. -/
def isJoint : List Char → Bool
  | '\\' :: '\n' :: _ => true
  | '\\' :: '\r' :: '\n' :: _ => true
  | '\\' :: '\\' :: '\r' :: '\n' :: _ => true
  | _ => false

variable {c : Char} {cs text : List Char} {line : Line} {target : Target}

theorem joinReturns_cons (plain : isJoint (c :: cs) = false) : joinReturns (c :: cs) = c :: joinReturns cs := by
  rw [joinReturns]
  rintro more rfl rfl
  cases plain

theorem exists_of_joinReturns {more : List Char} (front : joinReturns cs = '\n' :: more) :
    (∃ rest, cs = '\n' :: rest) ∨ ∃ rest, cs = '\\' :: '\r' :: '\n' :: rest := by
  rw [joinReturns.eq_def] at front
  split at front
  · cases front
  · next rest => exact .inr ⟨rest, rfl⟩
  · next c rest _ => exact .inl ⟨rest, congrArg (· :: rest) (List.cons.inj front).1⟩

theorem joined_cons (plain : isJoint (c :: cs) = false) : joined (c :: cs) = c :: joined cs := by
  rw [joined, joinReturns_cons plain, joinFeeds]
  · rfl
  · rintro more rfl feed
    obtain ⟨rest, rfl⟩ | ⟨rest, rfl⟩ := exists_of_joinReturns feed
    · cases plain
    · cases plain

theorem head?_joined_of_isJoint (joint : isJoint cs) : (joined cs).head? = some '\n' := by
  unfold isJoint at joint
  split at joint
  · simp [joined, joinReturns, joinFeeds]
  · simp [joined, joinReturns, joinFeeds]
  · simp [joined, joinReturns, joinFeeds]
  · cases joint

/-- Joining lines brings nothing but a line feed to the front. -/
theorem head?_of_joined (other : c ≠ '\n') (front : (joined cs).head? = some c) : cs.head? = some c := by
  cases joint : isJoint cs with
  | true => exact absurd (Option.some.inj (front.symm.trans (head?_joined_of_isJoint joint))) other
  | false =>
    cases cs with
    | nil => cases front
    | cons => rwa [joined_cons joint] at front

theorem opensComment_joined (plain : Lexer.opensComment (c :: cs) = false) :
    Lexer.opensComment (c :: joined cs) = false := by
  refine Bool.eq_false_iff.mpr fun opens => Bool.eq_false_iff.mp plain ?_
  cases order : joined cs with
  | nil =>
    rw [order] at opens
    cases opens
  | cons second =>
    rw [order, Lexer.opensComment, Bool.and_eq_true, Bool.or_eq_true, beq_iff_eq, beq_iff_eq, beq_iff_eq] at opens
    have other : second ≠ '\n' := by
      rintro rfl
      exact absurd opens.2 (by decide)
    have front := head?_of_joined other (by rw [order]; rfl)
    obtain ⟨rest, rfl⟩ := head?_eq_some_iff.mp front
    rw [Lexer.opensComment, Bool.and_eq_true, Bool.or_eq_true, beq_iff_eq, beq_iff_eq, beq_iff_eq]
    exact opens

/-- Where taking out comments stands: outside of strings, in a string, or behind a backslash in one. -/
inductive Mode where
  | code
  | string (quote : Char)
  | escaped (quote : Char)
  deriving DecidableEq

namespace Mode

def next : Mode → Char → Mode
  | code, c => if c == '"' || c == '\'' then string c else code
  | string quote, c => if c == '\\' then escaped quote else if c == quote then code else string quote
  | escaped quote, _ => string quote

/-- Take out the comments of what follows. -/
def strip : Mode → List Char → List Char
  | code, cs => stripComments none cs
  | string quote, cs => stripComments (some quote) cs
  | escaped _, [] => []
  | escaped quote, c :: cs => c :: stripComments (some quote) cs

theorem strip_cons {mode : Mode} {c : Char} {cs : List Char}
    (plain : mode = code → Lexer.opensComment (c :: cs) = false) :
    mode.strip (c :: cs) = c :: (mode.next c).strip cs := by
  cases mode with
  | code =>
    have noComment := plain rfl
    rw [strip, stripComments]
    · rw [next]
      split <;> rfl
    · rintro more rfl rfl
      cases noComment
    · rintro more rfl rfl
      cases noComment
  | string =>
    rw [next]
    by_cases escape : c = '\\'
    · subst escape
      cases cs with
      | nil => simp [strip, stripComments]
      | cons => simp [strip, stripComments]
    · rw [if_neg (mt beq_iff_eq.mp escape), strip, stripComments]
      · split <;> rfl
      · rintro d more rfl
        exact absurd rfl escape
  | escaped => rfl

end Mode

/-- What stands before the first comment or joined line. -/
def verbatim : Mode → List Char → List Char
  | _, [] => []
  | mode, c :: cs =>
    if isJoint (c :: cs) || (mode == .code && Lexer.opensComment (c :: cs)) then [] else c :: verbatim (mode.next c) cs

theorem verbatim_begins_raw (mode : Mode) (raw : List Char) : verbatim mode raw <+: raw := by
  induction raw generalizing mode with
  | nil => exact prefix_rfl
  | cons _ _ ih =>
    rw [verbatim]
    split
    · exact nil_prefix
    · exact cons_prefix_cons.mpr ⟨rfl, ih _⟩

/-- Before the first comment or joined line nothing is changed. -/
theorem verbatim_begins_stripped (mode : Mode) (raw : List Char) : verbatim mode raw <+: mode.strip (joined raw) := by
  induction raw generalizing mode with
  | nil => exact nil_prefix
  | cons _ _ ih =>
    rw [verbatim]
    split
    · exact nil_prefix
    · next kept =>
      rw [Bool.not_eq_true, Bool.or_eq_false_iff] at kept
      rw [joined_cons kept.1, Mode.strip_cons]
      · exact cons_prefix_cons.mpr ⟨rfl, ih _⟩
      · rintro rfl
        exact opensComment_joined kept.2

/-! ## Arguments in a document -/

/-- What follows the keyword of a directive, as it is written. -/
def Line.arguments (line : Line) : List Char :=
  (scanIdent ((line.text.dropWhile isLineBlank).tail.dropWhile isLineBlank)).2

/-- Where the arguments of a directive cease to be read as they are written. -/
def Line.verbatimEnd (line : Line) : Nat :=
  line.directive.restOffset + byteLength (verbatim .code line.arguments)

theorem Line.rest_eq (line : Line) : line.directive.rest = trimEnd (Mode.code.strip (joined line.arguments)) := by
  have behind : line.text.drop ((line.text.takeWhile isLineBlank).length + 1) =
      (line.text.dropWhile isLineBlank).tail := by
    rw [← drop_drop, drop_length_takeWhile, drop_one]
  simp only [directive, Directive.read, behind, drop_length_takeWhile]
  rfl

theorem byteLength_of_ident {word : List Char} (all : ∀ c ∈ word, isIdentPart c) :
    byteLength word = word.length := by
  refine byteLength_eq_length fun c found => Char.utf8Size_eq_one_iff.mpr ?_
  have part := all c found
  simp only [isIdentPart, isLetter, isDigit, Bool.or_eq_true, Bool.and_eq_true, decide_eq_true_eq, beq_iff_eq,
    Char.le_def] at part
  rcases part with ((⟨_, high⟩ | ⟨_, high⟩) | ⟨_, high⟩) | rfl
  · exact UInt32.le_trans high (by decide)
  · exact UInt32.le_trans high (by decide)
  · exact UInt32.le_trans high (by decide)
  · decide

theorem exists_front_arguments {blanks body : List Char} (shape : line.text = blanks ++ '#' :: body)
    (blank : blanks.all isLineBlank) : ∃ front, line.text = front ++ line.arguments ∧
      line.directive.restOffset = line.start + byteLength front := by
  have indent : line.text.takeWhile isLineBlank = blanks := by
    rw [shape, takeWhile_append_of_pos (all_eq_true.mp blank)]
    simp [isLineBlank]
  have hash : (line.text.dropWhile isLineBlank).tail = body := by
    rw [← drop_length_takeWhile, indent, shape, drop_left, tail_cons]
  have behind : line.text.drop (blanks.length + 1) = body := by
    rw [← drop_drop, shape, drop_left]
    rfl
  refine ⟨blanks ++ '#' :: (body.takeWhile isLineBlank ++ (scanIdent (body.dropWhile isLineBlank)).1), ?_, ?_⟩
  · rw [Line.arguments, hash, append_assoc, cons_append, append_assoc, scanIdent_append,
      takeWhile_append_dropWhile, shape]
  · simp only [Line.directive, Directive.read, indent, behind, drop_length_takeWhile]
    rw [byteLength_append, byteLength_cons, byteLength_append, byteLength_of_blank blank,
      byteLength_of_blank all_takeWhile, byteLength_of_ident fun c found =>
    isIdentPart_of_isIdent (isIdent_scanIdent (ne_nil_of_mem found)) c found]
    have size : '#'.utf8Size = 1 := rfl
    omega

/-- The arguments of a directive stand where the keyword ends. -/
theorem exists_arguments (found : line ∈ lines text) (kind : line.isDirective) :
    ∃ front back, text = front ++ (line.arguments ++ back) ∧ line.directive.restOffset = byteLength front := by
  obtain ⟨entry, lead, feed, back, rfl, lies⟩ := (lines_laid text).exists_line found
  obtain ⟨blanks, body, shape, blank, _⟩ := lies.shaped.of_directive kind
  obtain ⟨front, same, place⟩ := exists_front_arguments shape blank
  refine ⟨lead ++ front, feed ++ back, ?_, ?_⟩
  · rw [append_assoc, ← append_assoc front, ← same]
  · rw [place, lies.begins, byteLength_append, Nat.zero_add]

/-- A span of a word in the arguments of a directive, counted from the end of the keyword. In the arguments as they are
read the word stands there. In the document it does if the word ends where the arguments are still read as they are
written. -/
structure Line.Names (line : Line) (text : List Char) (span : Span) (word : String) : Prop where
  behind : line.directive.restOffset ≤ span.start
  read : slice? line.directive.rest (span.start - line.directive.restOffset)
    (span.stop - line.directive.restOffset) = some word.toList
  written : span.stop ≤ line.verbatimEnd → slice? text span.start span.stop = some word.toList

theorem Line.names (found : line ∈ lines text) (kind : line.isDirective) {before after : List Char}
    {word : String} (rest : line.directive.rest = before ++ (word.toList ++ after)) :
    let start := line.directive.restOffset + byteLength before
    line.Names text ⟨start, start + word.utf8ByteSize⟩ word := by
  intro start
  rw [utf8ByteSize_eq]
  refine ⟨Nat.le_add_right _ _, ?_, fun early => ?_⟩
  · have stop : start + byteLength word.toList - line.directive.restOffset =
        byteLength before + byteLength word.toList := by
      rw [Nat.add_assoc, Nat.add_sub_cancel_left]
    rw [stop, Nat.add_sub_cancel_left, rest]
    exact slice?_append before word.toList after
  · obtain ⟨front, back, same, place⟩ := exists_arguments found kind
    obtain ⟨others, raw⟩ := verbatim_begins_raw .code line.arguments
    obtain ⟨stripped, changed⟩ := verbatim_begins_stripped .code line.arguments
    obtain ⟨tail, trimmed, _⟩ := exists_trimEnd_append (Mode.code.strip (joined line.arguments))
    rw [← line.rest_eq, rest, ← changed] at trimmed
    have order : (before ++ word.toList) ++ (after ++ tail) = verbatim .code line.arguments ++ stripped := by
      rw [trimmed, append_assoc, append_assoc, append_assoc]
    have within : byteLength (before ++ word.toList) ≤ byteLength (verbatim .code line.arguments) := by
      have bound : line.directive.restOffset + byteLength before + byteLength word.toList ≤
          line.directive.restOffset + byteLength (verbatim .code line.arguments) := early
      rw [byteLength_append]
      omega
    obtain ⟨middle, kept, _⟩ := exists_middle order within
    have shape : text = (front ++ before) ++ (word.toList ++ (middle ++ (others ++ back))) := by
      rw [same, ← raw, kept]
      simp only [append_assoc]
    have begins : start = byteLength (front ++ before) := by
      rw [byteLength_append]
      omega
    rw [begins]
    exact shape.symm ▸ slice?_append (front ++ before) word.toList (middle ++ (others ++ back))

/-! ## What directives name -/

/-- The definition that a line makes, noted for a file. -/
def Line.macro? (line : Line) (file : Option Path) : Option Macro :=
  if line.isDirective && line.directive.keyword == .define then
    match Macro.parseDefine line.directive.rest with
    | .error _ => none
    | .ok defined =>
      let start := line.directive.restOffset + defined.offset
      some ⟨defined.name, defined.definition, ⟨start, start + defined.name.utf8ByteSize⟩, file⟩
  else none

theorem exists_of_parseDefine {rest : List Char} {defined : Macro.Defined}
    (read : Macro.parseDefine rest = .ok defined) :
    ∃ before after, rest = before ++ (defined.name.toList ++ after) ∧ defined.offset = byteLength before := by
  cases scanned : scanIdent (rest.dropWhile isLineBlank) with
  | mk word after =>
    rw [Macro.parseDefine_eq scanned] at read
    have parts : word ++ after = rest.dropWhile isLineBlank := by
      rw [← scanIdent_append (rest.dropWhile isLineBlank), scanned]
    split at read
    · cases read
    · split at read
      · cases read
      · obtain ⟨definition, -, rfl⟩ := Macro.exists_of_map_eq_ok read
        refine ⟨rest.takeWhile isLineBlank, after, ?_, (byteLength_of_blank all_takeWhile).symm⟩
        rw [String.toList_ofList, parts, takeWhile_append_dropWhile]

theorem Target.of_upTo {close : Char} {angled : Bool} {offset : Nat}
    (read : Target.upTo close angled offset cs = some target) :
    target.text.toList = cs.takeWhile (· != close) ∧ target.offset = offset := by
  obtain ⟨-, same⟩ := Option.ite_none_left_eq_some.mp read
  obtain rfl := Option.some.inj same
  exact ⟨String.toList_ofList, rfl⟩

/-- A target is read behind white space and its opening mark. -/
theorem Target.exists_of_read? {rest : List Char} (read : Target.read? rest = some target) :
    ∃ before after, rest = before ++ (target.text.toList ++ after) ∧ target.offset = byteLength before := by
  have marked {mark close : Char} {angled : Bool} {cs : List Char} (small : mark.utf8Size = 1)
      (opened : trimStart rest = mark :: cs)
      (read : Target.upTo close angled (byteLength (rest.takeWhile isWhite) + 1) cs = some target) :
      ∃ before after, rest = before ++ (target.text.toList ++ after) ∧ target.offset = byteLength before := by
    obtain ⟨chars, offset⟩ := Target.of_upTo read
    refine ⟨rest.takeWhile isWhite ++ [mark], cs.dropWhile (· != close), ?_, ?_⟩
    · rw [chars, takeWhile_append_dropWhile, append_assoc, singleton_append, ← opened, trimStart,
        takeWhile_append_dropWhile]
    · rw [offset, byteLength_append, byteLength_cons, small, byteLength_nil]
  simp only [Target.read?] at read
  split at read
  · next opened => exact marked rfl opened read
  · next opened => exact marked rfl opened read
  · cases read

theorem Line.names_macro (found : line ∈ lines text) {file : Option Path} {entry : Macro}
    (made : line.macro? file = some entry) : line.Names text entry.span entry.name := by
  rw [Line.macro?] at made
  split at made
  · next kind =>
    cases read : Macro.parseDefine line.directive.rest with
    | error =>
      rw [read] at made
      cases made
    | ok =>
      rw [read] at made
      obtain ⟨before, after, rest, offset⟩ := exists_of_parseDefine read
      obtain rfl := Option.some.inj made
      rw [offset]
      exact Line.names found (Bool.and_eq_true_iff.mp kind).1 rest
  · cases made

theorem Line.names_target (found : line ∈ lines text) (named : line.target? = some target) (env : Env) :
    line.Names text (env.record line.directive target).span target.text := by
  obtain ⟨kind, read⟩ := Option.ite_none_right_eq_some.mp named
  obtain ⟨before, after, rest, offset⟩ := Target.exists_of_read? read
  rw [Env.record, offset]
  exact Line.names found (Bool.and_eq_true_iff.mp kind).1 rest

end ScriptLint.Preprocess
