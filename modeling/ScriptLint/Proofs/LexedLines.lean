import ScriptLint.Proofs.Lines

/-!
# How the lexer reads a line

The lexer cuts a text token by token and knows nothing of lines, while preprocessing scans line by line for comments.
This module follows the lexer through one line and tells where it stands behind the line: in a block comment, or at
the start of a fresh line. Both scans agree as long as no string hides from one of them what the other takes for a
comment.

All that is told of the pieces is where directives start, the marks of a text.
-/

namespace ScriptLint

open Text List

namespace Text

variable {quote c : Char} {cs : List Char}

/-- A character that is neither a last backslash nor one with another character behind it is no backslash. -/
theorem ne_backslash (last : c = '\\' → cs = [] → False)
    (escape : ∀ next more, c = '\\' → cs = next :: more → False) : c ≠ '\\' := by
  intro backslash
  cases cs with
  | nil => exact last backslash rfl
  | cons next more => exact escape next more backslash rfl

theorem stringLength_other (escape : c ≠ '\\') (oneLine : c ≠ '\n') :
    stringLength quote (c :: cs) =
      if c == quote then (1, true) else ((stringLength quote cs).1 + 1, (stringLength quote cs).2) := by
  rw [stringLength, if_neg (by simpa using oneLine)]
  · rintro rfl
    exact absurd rfl escape
  · rintro _ _ rfl
    exact absurd rfl escape

theorem stringLength_le (quote : Char) (cs : List Char) : (stringLength quote cs).1 ≤ cs.length := by
  fun_induction stringLength quote cs with
  | case1 => exact Nat.le_refl 0
  | case2 => exact Nat.le_refl 1
  | case3 _ _ _ _ known ih =>
    rw [known] at ih
    exact Nat.add_le_add_right ih 2
  | case4 => exact Nat.zero_le _
  | case5 => exact Nat.succ_le_succ (Nat.zero_le _)
  | case6 _ _ _ _ _ _ _ _ known ih =>
    rw [known] at ih
    exact Nat.succ_le_succ ih

/-- A string ends where it ended, whatever follows it, if it is closed or what ended it is still there. -/
theorem stringLength_take_append {other : List Char}
    (ended : (stringLength quote cs).2 = false → cs.drop (stringLength quote cs).1 = [] → other = [])
    (feed : (stringLength quote cs).2 = false → (cs.drop (stringLength quote cs).1).head? = some '\n' →
      other.head? = some '\n') :
    stringLength quote (cs.take (stringLength quote cs).1 ++ other) = stringLength quote cs := by
  fun_induction stringLength quote cs with
  | case1 =>
    rw [ended rfl rfl]
    rfl
  | case2 =>
    rw [ended rfl rfl]
    rfl
  | case3 _ _ _ _ known ih =>
    rw [known] at ih
    exact congrArg (fun found => (found.1 + 2, found.2)) (ih ended feed)
  | case4 _ _ _ _ isFeed =>
    obtain rfl := beq_iff_eq.mp isFeed
    obtain ⟨more, rfl⟩ := head?_eq_some_iff.mp (feed rfl rfl)
    rfl
  | case5 _ _ last escape oneLine closes =>
    exact (stringLength_other (ne_backslash last escape) (by simpa using oneLine)).trans (if_pos closes)
  | case6 _ _ last escape oneLine goesOn _ _ known ih =>
    rw [known] at ih
    refine (stringLength_other (ne_backslash last escape) (by simpa using oneLine)).trans ((if_neg goesOn).trans ?_)
    exact congrArg (fun found => (found.1 + 1, found.2)) (ih ended feed)

end Text

namespace Lexer

/-! ## Marks -/

/-- Where a piece starts that is a directive. -/
def Piece.mark? (piece : Piece) : Option Nat :=
  if piece.kind = some .directive then some piece.offset else none

/-- Where directives start in a text that no disabled range divides. -/
def marks (fresh : Bool) (offset : Nat) (cs : List Char) : List Nat :=
  (cut none fresh offset cs).1.filterMap Piece.mark?

/-- The marks of a text that begins inside a string. -/
def stringMarks (quote : Char) (offset : Nat) (cs : List Char) : List Nat :=
  let length := (stringLength quote cs).1
  marks false (offset + byteLength (cs.take length)) (cs.drop length)

/-- The marks of a text that begins inside a block comment. -/
def commentMarks (offset : Nat) (cs : List Char) : List Nat :=
  match closedLength? cs with
  | some length => marks false (offset + byteLength (cs.take length)) (cs.drop length)
  | none => []

/-- Whether a token begins with a character, wherever it stands. -/
def beginsToken (c : Char) : Bool := isQuote c || isDigit c || isIdentStart c || isOpChar c || isPunctChar c

/-- Behind the start of a line a character begins a token other than a directive, or none. -/
theorem kind_classify (next : Option Char) (c : Char) (cs : List Char) :
    (∃ kind ≠ .directive, (Lexeme.classify false next c cs).kind = some kind) ∨
      beginsToken c = false ∧ (Lexeme.classify false next c cs).kind = none := by
  unfold Lexeme.classify
  rw [Bool.and_false, if_neg Bool.false_ne_true]
  split
  · exact .inl ⟨.comment, nofun, rfl⟩
  · split
    · refine .inl ⟨.comment, nofun, ?_⟩
      unfold Lexeme.blockComment
      split <;> rfl
    · split
      · refine .inl ⟨.str, nofun, ?_⟩
        unfold Lexeme.string
        split <;> rfl
      · split
        · refine .inl ⟨.number, nofun, ?_⟩
          unfold Lexeme.number
          split <;> rfl
        · split
          · exact .inl ⟨.ident, nofun, rfl⟩
          · split
            · refine .inl ⟨.op, nofun, ?_⟩
              unfold Lexeme.operator
              split <;> rfl
            · split
              · exact .inl ⟨.punct, nofun, rfl⟩
              · exact .inr ⟨by simp_all [beginsToken], rfl⟩

section Cutting

variable {fresh : Bool} {c : Char} {cs : List Char} (offset : Nat)

@[simp] theorem marks_nil : marks fresh offset [] = [] := by
  rw [marks, cut]
  rfl

theorem marks_of_blank (blank : isTokenBlank c) :
    marks fresh offset (c :: cs) = marks (fresh || c == '\n') (offset + c.utf8Size) cs := by
  rw [marks, cut, if_pos blank]
  rfl

@[simp] theorem marks_lineFeed : marks fresh offset ('\n' :: cs) = marks true (offset + 1) cs := by
  rw [marks_of_blank offset rfl, beq_self_eq_true, Bool.or_true]
  rfl

theorem marks_of_lexeme (filled : isTokenBlank c = false) :
    let lexeme := Lexeme.classify fresh none c cs
    marks fresh offset (c :: cs) = (if lexeme.kind = some .directive then [offset] else []) ++
      marks (fresh && lexeme.kind.isNone) (offset + byteLength (c :: cs.take lexeme.tail)) (cs.drop lexeme.tail) := by
  intro lexeme
  rw [marks, cut, if_neg (by rw [filled]; exact Bool.false_ne_true)]
  rw [filterMap_cons, Piece.mark?]
  split <;> rename_i found <;> split at found <;> simp_all [marks, Piece.span, lexeme]

/-- Behind the start of a line no directive starts. -/
theorem kind_classify_ne_directive : (Lexeme.classify false none c cs).kind ≠ some .directive := by
  rcases kind_classify none c cs with ⟨kind, other, found⟩ | ⟨_, found⟩
  · rw [found]
    exact fun same => other (Option.some.inj same)
  · rw [found]
    exact nofun

theorem marks_of_stale (filled : isTokenBlank c = false) :
    let lexeme := Lexeme.classify false none c cs
    marks false offset (c :: cs) =
      marks false (offset + byteLength (c :: cs.take lexeme.tail)) (cs.drop lexeme.tail) := by
  rw [marks_of_lexeme offset filled, if_neg kind_classify_ne_directive, Bool.false_and, nil_append]

end Cutting

/-! ## Strings and comments -/

section Strings

variable {quote c : Char} {cs : List Char} (offset : Nat)

theorem marks_of_quote (isQuote : isQuote c) :
    marks false offset (c :: cs) = stringMarks c (offset + c.utf8Size) cs := by
  have filled : isTokenBlank c = false := by
    rcases (by simpa [Text.isQuote] using isQuote) with rfl | rfl <;> rfl
  have slash : (c == '/') = false := by
    rcases (by simpa [Text.isQuote] using isQuote) with rfl | rfl <;> rfl
  have tail : (Lexeme.classify false none c cs).tail = (stringLength c cs).1 := by
    simp only [Lexeme.classify, slash, isQuote, Bool.and_false, Bool.false_and, Bool.false_eq_true, ↓reduceIte,
      Lexeme.string]
    split
    · rename_i found
      rw [found]
      rfl
    · next found => rw [found]
  rw [marks_of_stale offset filled, tail, byteLength_cons, ← Nat.add_assoc]
  rfl

theorem stringMarks_eq {length : Nat} (known : (stringLength quote cs).1 = length) :
    stringMarks quote offset cs = marks false (offset + byteLength (cs.take length)) (cs.drop length) := by
  subst known
  rfl

theorem stringMarks_escape :
    stringMarks quote offset ('\\' :: c :: cs) = stringMarks quote (offset + 1 + c.utf8Size) cs := by
  have length : (stringLength quote ('\\' :: c :: cs)).1 = (stringLength quote cs).1 + 2 := rfl
  rw [stringMarks_eq offset length, take_succ_cons, take_succ_cons, drop_succ_cons, drop_succ_cons,
    byteLength_cons, byteLength_cons, ← Nat.add_assoc, ← Nat.add_assoc]
  rfl

end Strings

section Comments

variable {c : Char} {cs : List Char} (offset : Nat)

theorem marks_blockComment : marks false offset ('/' :: '*' :: cs) = commentMarks (offset + 2) cs := by
  rw [marks_of_stale offset rfl, commentMarks]
  have lexeme : Lexeme.classify false none '/' ('*' :: cs) = Lexeme.blockComment ('*' :: cs) := rfl
  rw [lexeme, Lexeme.blockComment, drop_one, tail_cons]
  cases closedLength? cs with
  | none => simp
  | some =>
    simp only [Lexeme.good, take_succ_cons, drop_succ_cons, byteLength_cons, ← Nat.add_assoc]
    rfl

theorem commentMarks_other (goesOn : ∀ rest, c :: cs ≠ '*' :: '/' :: rest) :
    commentMarks offset (c :: cs) = commentMarks (offset + c.utf8Size) cs := by
  rw [commentMarks, closedLength?, commentMarks]
  · cases closedLength? cs with
    | none => rfl
    | some => simp [Nat.add_assoc]
  · rintro rest rfl rfl
    exact goesOn rest rfl

end Comments

/-! ## Code -/

/-- The characters that end a line or may begin a comment or a string. -/
def signals : List Char := ['\n', '/', '"', '\'']

def Plain (c : Char) : Prop := c ∉ signals

instance : DecidablePred Plain := fun c => inferInstanceAs (Decidable (c ∉ signals))

/-- A text that begins with a comment. -/
def opensComment : List Char → Bool
  | first :: second :: _ => first == '/' && (second == '/' || second == '*')
  | _ => false

variable {c : Char}

theorem plain_of_test (test : Char → Bool) (none : signals.all (fun c => !test c))
    (holds : test c) : Plain c := by
  intro found
  have fails := all_eq_true.mp none c found
  rw [holds] at fails
  cases fails

theorem isQuote_of_plain (plain : Plain c) : isQuote c = false := by
  simp only [Plain, signals, mem_cons, not_or] at plain
  simp [isQuote, plain]

theorem opensComment_of_ne (other : c ≠ '/') (cs : List Char) : opensComment (c :: cs) = false := by
  cases cs with
  | nil => rfl
  | cons => simp [opensComment, other]

/-- What a token of code holds behind its first character is plain. -/
def PlainTail (length : Nat) (cs : List Char) : Prop := ∀ c ∈ cs.take length, Plain c

namespace PlainTail

variable {c : Char} {cs : List Char} {length more : Nat}

theorem zero (cs : List Char) : PlainTail 0 cs := nofun

theorem succ (plain : Plain c) (rest : PlainTail length cs) : PlainTail (length + 1) (c :: cs) :=
  forall_mem_cons.mpr ⟨plain, rest⟩

theorem add (first : PlainTail length cs) (second : PlainTail more (cs.drop length)) :
    PlainTail (length + more) cs := by
  intro c found
  rw [take_add] at found
  rcases mem_append.mp found with here | later
  · exact first c here
  · exact second c later

theorem takeWhile {test : Char → Bool} (none : signals.all (fun c => !test c)) (cs : List Char) :
    PlainTail (cs.takeWhile test).length cs := by
  intro c found
  rw [← prefix_iff_eq_take.mp ( takeWhile_prefix test)] at found
  exact plain_of_test test none (all_eq_true.mp all_takeWhile c found)

theorem digits (cs : List Char) : PlainTail (digitsLength cs) cs := takeWhile (by decide) cs

theorem fraction (cs : List Char) : PlainTail (fractionLength cs) cs := by
  unfold fractionLength
  split
  · exact succ (by decide) (digits _)
  · exact zero _

theorem exponent (cs : List Char) : PlainTail (exponentLength cs) cs := by
  cases cs with
  | nil => exact zero _
  | cons c cs =>
    have signed (plain : Plain c) {sign : Nat} (tail : PlainTail sign cs) :
        PlainTail (if digitsLength (cs.drop sign) == 0 then 0 else 1 + sign + digitsLength (cs.drop sign))
          (c :: cs) := by
      split
      · exact zero _
      · rw [Nat.add_assoc, Nat.add_comm 1]
        exact succ plain (add tail (digits _))
    unfold exponentLength
    dsimp only
    split
    · rename_i mark
      refine signed (plain_of_test (fun c => c == 'e' || c == 'E') (by decide) mark) ?_
      split
      · exact succ (by decide) (zero _)
      · exact succ (by decide) (zero _)
      · exact zero _
    · exact zero _

theorem number (first : Char) (cs : List Char) : PlainTail (Lexeme.number first cs).tail cs := by
  unfold Lexeme.number
  split
  · rename_i hexadecimal
    cases cs with
    | nil => simp at hexadecimal
    | cons c cs =>
      have mark : (c == 'x' || c == 'X') := by simp_all
      exact succ (plain_of_test (fun c => c == 'x' || c == 'X') (by decide) mark) (takeWhile (by decide) cs)
  · refine add (add (digits cs) ?_) (exponent _)
    split
    · exact zero _
    · exact fraction _

theorem operator (first : Char) (cs : List Char) : PlainTail (Lexeme.operator first cs).tail cs := by
  cases cs with
  | nil => exact zero _
  | cons =>
    unfold Lexeme.operator Lexeme.good
    dsimp only
    split
    · rename_i pair
      have listed := contains_iff_mem.mpr (mem_map_of_mem (f := Prod.snd) (contains_iff_mem.mp pair))
      exact succ (plain_of_test (fun c => (pairs.map Prod.snd).contains c) (by decide) listed) (zero _)
    · exact zero _

theorem classify (quote : isQuote c = false) (code : opensComment (c :: cs) = false) :
    PlainTail (Lexeme.classify false none c cs).tail cs := by
  have lineComment : (c == '/' && cs.head?.or none == some '/') = false := by
    cases cs with
    | nil => simp
    | cons => simp_all [opensComment]
  have blockComment : (c == '/' && cs.head?.or none == some '*') = false := by
    cases cs with
    | nil => simp
    | cons => simp_all [opensComment]
  unfold Lexeme.classify
  dsimp only
  rw [Bool.and_false, lineComment, blockComment, quote]
  simp only [Bool.false_eq_true, ↓reduceIte]
  split
  · exact number c cs
  · split
    · exact takeWhile (by decide) cs
    · split
      · exact operator c cs
      · split <;> exact zero _

end PlainTail

section Neutral

variable {c : Char} {cs : List Char}

/-- Plain characters may be left out of texts up to a length where one may be. -/
theorem marks_append_of_plain {limit : Nat}
    (skip : ∀ offset {c} {cs}, cs.length < limit → Plain c →
      marks false offset (c :: cs) = marks false (offset + c.utf8Size) cs)
    (offset : Nat) {front : List Char} (plain : ∀ c ∈ front, Plain c) (back : List Char)
    (within : (front ++ back).length ≤ limit) :
    marks false offset (front ++ back) = marks false (offset + byteLength front) back := by
  induction front generalizing offset with
  | nil => rfl
  | cons _ front ih =>
    obtain ⟨plainFirst, plainLater⟩ := forall_mem_cons.mp plain
    have shorter : (front ++ back).length < limit := within
    rw [cons_append, skip offset shorter plainFirst, ih _ plainLater (Nat.le_of_lt shorter), byteLength_cons,
      Nat.add_assoc]

/-- In code a character may be left out that neither ends the line nor begins a comment or a string. -/
theorem marks_of_neutral (offset : Nat) (oneLine : c ≠ '\n') (quote : isQuote c = false)
    (code : opensComment (c :: cs) = false) : marks false offset (c :: cs) = marks false (offset + c.utf8Size) cs := by
  -- What a token holds behind its first character is plain, so without that character it is left out bit by bit.
  induction size : cs.length using Nat.strongRecOn generalizing c cs offset with
  | ind size ih =>
    subst size
    cases blank : isTokenBlank c with
    | true => rw [marks_of_blank offset blank, Bool.false_or, beq_eq_false_iff_ne.mpr oneLine]
    | false =>
      have skip (offset : Nat) {c : Char} {rest : List Char} (shorter : rest.length < cs.length) (plain : Plain c) :
          marks false offset (c :: rest) = marks false (offset + c.utf8Size) rest := by
        have slash : c ≠ '/' := fun same => absurd (same ▸ plain) (by decide)
        have feed : c ≠ '\n' := fun same => absurd (same ▸ plain) (by decide)
        exact ih _ shorter offset feed (isQuote_of_plain plain) (opensComment_of_ne slash rest) rfl
      have skipped := marks_append_of_plain skip (offset + c.utf8Size) (PlainTail.classify quote code)
        (cs.drop (Lexeme.classify false none c cs).tail) (Nat.le_of_eq (by rw [take_append_drop]))
      rw [take_append_drop] at skipped
      rw [marks_of_stale offset blank, byteLength_cons, ← Nat.add_assoc, skipped]

end Neutral

/-! ## Line ends -/

/-- The marks behind a line that leaves a comment open, or that does not. -/
def marksBehind (inside : Bool) (offset : Nat) (more : List Char) : List Nat :=
  if inside then commentMarks offset more else marks true offset more

section LineEnds

variable {feed more : List Char} (offset : Nat)

theorem marks_of_ends (fresh : Bool) (ends : Ends feed more) :
    marks fresh offset (feed ++ more) = marks true (offset + byteLength feed) more := by
  rcases ends with rfl | ⟨rfl, rfl⟩
  · exact marks_lineFeed offset
  · exact (marks_nil _).trans (marks_nil _).symm

theorem stringMarks_of_ends (quote : Char) (ends : Ends feed more) :
    stringMarks quote offset (feed ++ more) = marks true (offset + byteLength feed) more := by
  rcases ends with rfl | ⟨rfl, rfl⟩
  · exact marks_lineFeed offset
  · exact (marks_nil _).trans (marks_nil _).symm

theorem commentMarks_of_ends (ends : Ends feed more) :
    commentMarks offset (feed ++ more) = commentMarks (offset + byteLength feed) more := by
  rcases ends with rfl | ⟨rfl, rfl⟩
  · exact commentMarks_other offset (by simp)
  · rfl

theorem opensComment_append {cs : List Char} (ends : Ends feed more)
    (other : opensComment (c :: cs) = false) : opensComment (c :: (cs ++ (feed ++ more))) = false := by
  cases cs with
  | cons => exact other
  | nil =>
    rcases ends with rfl | ⟨rfl, rfl⟩
    · simp [opensComment]
    · rfl

theorem ne_close_append {cs : List Char} (ends : Ends feed more)
    (other : ∀ rest, c :: cs ≠ '*' :: '/' :: rest) (rest : List Char) :
    c :: (cs ++ (feed ++ more)) ≠ '*' :: '/' :: rest := by
  cases cs with
  | cons _ cs =>
    intro same
    cases same
    exact other cs rfl
  | nil =>
    rcases ends with rfl | ⟨rfl, rfl⟩
    · simp
    · simp

/-- A piece that reaches to the end of its line may leave out a carriage return. -/
theorem marks_of_withoutReturn (line : List Char) (ends : Ends feed more) :
    let length := withoutReturn line.length (line ++ (feed ++ more))
    marks false (offset + byteLength ((line ++ (feed ++ more)).take length)) ((line ++ (feed ++ more)).drop length) =
      marks true (offset + byteLength line + byteLength feed) more := by
  intro length
  by_cases returns : line.getLast? = some '\r'
  · obtain ⟨front, rfl⟩ := getLast?_eq_some_iff.mp returns
    have shorter : length = front.length := by
      simp only [length, withoutReturn]
      rw [take_left, returns, if_pos (beq_self_eq_true _), length_append]
      rfl
    rw [shorter, append_assoc, take_left, drop_left, singleton_append, marks_of_blank _ rfl,
      Bool.false_or, show ('\r' == '\n') = false from rfl, marks_of_ends _ false ends, byteLength_append,
      ← Nat.add_assoc]
    rfl
  · have whole : length = line.length := by simp [length, withoutReturn, returns]
    rw [whole, take_left, drop_left, marks_of_ends _ false ends]

theorem marks_lineComment {line : List Char} (oneLine : '\n' ∉ line) (ends : Ends feed more) :
    marks false offset ('/' :: '/' :: (line ++ (feed ++ more))) =
      marks true (offset + 2 + byteLength line + byteLength feed) more := by
  have length : lineLength ('/' :: line ++ (feed ++ more)) = ('/' :: line).length := by
    have stops : (feed ++ more).takeWhile (· != '\n') = [] := by
      rcases ends with rfl | ⟨rfl, rfl⟩
      · rfl
      · rfl
    rw [lineLength, takeWhile_append_of_pos, stops, append_nil]
    intro c found
    rw [bne_iff_ne]
    rintro rfl
    exact oneLine (by simpa using found)
  have lexeme : Lexeme.classify false none '/' ('/' :: (line ++ (feed ++ more))) =
      .good .comment (withoutReturn (lineLength ('/' :: line ++ (feed ++ more))) ('/' :: line ++ (feed ++ more))) := rfl
  rw [marks_of_stale offset rfl, lexeme, length, byteLength_cons, ← Nat.add_assoc]
  have ended := marks_of_withoutReturn (offset + '/'.utf8Size) ('/' :: line) ends
  rw [byteLength_cons, ← Nat.add_assoc] at ended
  exact ended

end LineEnds

/-! ## Fresh lines -/

theorem classify_of_ne_hash (hash : c ≠ '#') (next : Option Char) (cs : List Char) :
    Lexeme.classify true next c cs = Lexeme.classify false next c cs := by
  simp [Lexeme.classify, hash]

theorem classify_of_idle (hash : c ≠ '#') (idle : beginsToken c = false) (next : Option Char)
    (cs : List Char) : Lexeme.classify true next c cs = ⟨none, 0, some (.unexpected c)⟩ := by
  have slash : c ≠ '/' := by
    rintro rfl
    exact absurd idle (by decide)
  have point : c ≠ '.' := by
    rintro rfl
    exact absurd idle (by decide)
  simp only [beginsToken, Bool.or_eq_false_iff] at idle
  simp [Lexeme.classify, hash, slash, point, idle]

section Fresh

variable {c : Char} {cs : List Char} (offset : Nat)

/-- A line stays fresh behind what begins no token. -/
theorem marks_of_idle (hash : c ≠ '#') (idle : beginsToken c = false) :
    marks true offset (c :: cs) = marks true (offset + c.utf8Size) cs := by
  cases blank : isTokenBlank c with
  | true => rw [marks_of_blank offset blank, Bool.true_or]
  | false =>
    rw [marks_of_lexeme offset blank, classify_of_idle hash idle]
    rfl

/-- A line whose first token is not a directive is read like code. -/
theorem marks_of_token (hash : c ≠ '#') (token : beginsToken c) :
    marks true offset (c :: cs) = marks false offset (c :: cs) := by
  have filled : isTokenBlank c = false := by
    cases blank : isTokenBlank c with
    | false => rfl
    | true =>
      simp only [isTokenBlank, Bool.or_eq_true, beq_iff_eq] at blank
      rcases blank with ((((rfl | rfl) | rfl) | rfl) | rfl) | rfl <;> exact absurd token (by decide)
  have some : (Lexeme.classify false none c cs).kind.isNone = false := by
    rcases kind_classify none c cs with ⟨kind, _, found⟩ | ⟨idle, _⟩
    · rw [found, Option.isNone_some]
    · exact absurd (token.symm.trans idle) nofun
  rw [marks_of_lexeme offset filled, marks_of_lexeme offset filled, classify_of_ne_hash hash, some, Bool.and_false,
    Bool.and_false]

/-- A line of text is read like code, though it is fresh. -/
theorem marks_of_text {line feed more : List Char} (oneLine : '\n' ∉ line) (ends : Ends feed more)
    (text : (line.dropWhile fun c => c != '#' && !beginsToken c).head? ≠ some '#') :
    marks true offset (line ++ (feed ++ more)) = marks false offset (line ++ (feed ++ more)) := by
  induction line generalizing offset with
  | nil => rw [nil_append, marks_of_ends offset true ends, marks_of_ends offset false ends]
  | cons c _ ih =>
    obtain ⟨feedFirst, feedLater⟩ := not_or.mp (mt mem_cons.mpr oneLine)
    have hash : c ≠ '#' := by
      rintro rfl
      exact text rfl
    cases token : beginsToken c with
    | true => exact marks_of_token offset hash token
    | false =>
      rw [dropWhile_cons_of_pos (by simp [hash, token])] at text
      have quote : isQuote c = false := by simp_all [beginsToken]
      have slash : c ≠ '/' := by
        rintro rfl
        exact absurd token (by decide)
      rw [cons_append, marks_of_idle offset hash token, ih _ feedLater text,
        marks_of_neutral offset (Ne.symm feedFirst) quote (opensComment_of_ne slash _)]

end Fresh

/-! ## Directives -/

section Directives

/-- A line feed that is not continued ends a directive. -/
theorem directiveLength_append {before cs : List Char} (whole : directiveLength before cs = cs.length)
    (stops : continues (cs.reverse ++ before) = false) (more : List Char) :
    directiveLength before (cs ++ '\n' :: more) = cs.length := by
  induction cs generalizing before with
  | nil =>
    rw [reverse_nil, nil_append] at stops
    simp [directiveLength, stops]
  | cons _ _ ih =>
    rw [directiveLength] at whole
    split at whole
    · cases whole
    · rename_i goesOn
      rw [cons_append, directiveLength, if_neg goesOn, ih (Nat.succ.inj whole) (by simpa using stops),
        length_cons]

theorem marks_of_directive (offset : Nat) {blanks body feed more : List Char} (blank : blanks.all isLineBlank)
    (whole : directiveLength ['#'] body = body.length) (ends : Ends feed more)
    (stops : feed ≠ [] → continues (body.reverse ++ ['#']) = false) :
    marks true offset (blanks ++ '#' :: (body ++ (feed ++ more))) =
      (offset + blanks.length) :: marks true (offset + byteLength (blanks ++ '#' :: body) + byteLength feed) more := by
  induction blanks generalizing offset with
  | nil =>
    have length : directiveLength ['#'] (body ++ (feed ++ more)) = body.length := by
      rcases ends with rfl | ⟨rfl, rfl⟩
      · exact directiveLength_append whole (stops nofun) more
      · rw [append_nil, append_nil, whole]
    have lexeme : Lexeme.classify true none '#' (body ++ (feed ++ more)) =
        .good .directive
          (withoutReturn (directiveLength ['#'] (body ++ (feed ++ more))) (body ++ (feed ++ more))) := rfl
    have ended := marks_of_withoutReturn (offset + '#'.utf8Size) body ends
    rw [nil_append, marks_of_lexeme offset rfl, lexeme, length, nil_append, byteLength_cons, byteLength_cons,
      ← Nat.add_assoc, ← Nat.add_assoc, ← ended]
    rfl
  | cons c _ ih =>
    rw [all_cons, Bool.and_eq_true] at blank
    have size : c.utf8Size = 1 ∧ isTokenBlank c := by
      rcases (by simpa [isLineBlank] using blank.1) with rfl | rfl <;> exact ⟨rfl, rfl⟩
    rw [cons_append, marks_of_blank offset size.2, Bool.true_or, ih _ blank.2, cons_append, byteLength_cons,
      length_cons, size.1, Nat.add_right_comm offset, Nat.add_assoc offset 1, Nat.add_assoc offset]

end Directives

end Lexer

/-! ## Scanning for comments -/

namespace Preprocess

open Lexer

variable {c : Char} {cs : List Char} (place : Nat)

theorem scanComments_code (other : opensComment (c :: cs) = false) :
    scanComments place .code (c :: cs) =
      scanComments (place + c.utf8Size) (if c == '"' then .string else .code) cs := by
  rw [scanComments]
  · rintro rest rfl rfl
    exact absurd other (by simp [opensComment])
  · rintro rest rfl rfl
    exact absurd other (by simp [opensComment])

theorem scanComments_comment (other : ∀ rest, c :: cs ≠ '*' :: '/' :: rest) :
    scanComments place .comment (c :: cs) = scanComments (place + c.utf8Size) .comment cs := by
  rw [scanComments]
  rintro rest rfl rfl
  exact other rest rfl

theorem scanComments_string (escape : c ≠ '\\') :
    scanComments place .string (c :: cs) =
      scanComments (place + c.utf8Size) (if c == '"' || c == '\n' then .code else .string) cs := by
  rw [scanComments]
  rintro _ _ rfl
  exact absurd rfl escape

end Preprocess

/-! ## Lines -/

/-- Where the lexer stands inside a line. -/
inductive Reading where
  | code
  | literal (quote : Char)
  | comment
  deriving Repr, DecidableEq

namespace Reading

open Lexer Preprocess

def marks : Reading → (offset : Nat) → List Char → List Nat
  | code => Lexer.marks false
  | literal quote => stringMarks quote
  | comment => commentMarks

/-- Where the scan for comments stands meanwhile: it knows one kind of string only. -/
def scanning : Reading → Scanning
  | code => .code
  | literal quote => if quote == '"' then .string else .code
  | comment => .comment

/-- A text inside a string that the scan for comments takes for code, where it begins neither a comment nor another
string. -/
def overlooked (quote : Char) (cs : List Char) : Bool :=
  quote == '"' || !(cs.head? == some '"' || opensComment cs)

/-- Whether strings leave the comments of a line as they are: no string runs on behind its end, and none in single
quotes holds a double quote or the beginning of a comment. -/
def tame : Reading → List Char → Bool
  | _, [] => true
  | comment, '*' :: '/' :: cs => tame code cs
  | comment, _ :: cs => tame comment cs
  | literal _, ['\\'] => false
  | literal quote, '\\' :: c :: cs => overlooked quote (c :: cs) && tame (literal quote) cs
  | literal quote, c :: cs => overlooked quote (c :: cs) && tame (if c == quote then code else literal quote) cs
  | code, '/' :: '/' :: _ => true
  | code, '/' :: '*' :: cs => tame comment cs
  | code, c :: cs => tame (if isQuote c then literal c else code) cs

section Steps

variable {quote c : Char} {cs : List Char} (offset : Nat)

theorem marks_code (oneLine : c ≠ '\n') (other : opensComment (c :: cs) = false) :
    code.marks offset (c :: cs) = (if isQuote c then literal c else code).marks (offset + c.utf8Size) cs := by
  split
  · next quote => exact marks_of_quote offset quote
  · next quote => exact marks_of_neutral offset oneLine (Bool.eq_false_iff.mpr quote) other

theorem scanning_code (other : opensComment (c :: cs) = false) :
    scanComments offset code.scanning (c :: cs) =
      scanComments (offset + c.utf8Size) (if isQuote c then literal c else code).scanning cs := by
  rw [scanning, scanComments_code offset other]
  by_cases double : c = '"'
  · rw [double]
    rfl
  · have mode : (if isQuote c then literal c else code).scanning = .code := by
      split <;> simp [scanning, double]
    rw [mode, if_neg (by simpa using double)]

theorem marks_literal (escape : c ≠ '\\') (oneLine : c ≠ '\n') :
    (literal quote).marks offset (c :: cs) =
      (if c == quote then code else literal quote).marks (offset + c.utf8Size) cs := by
  have length : (stringLength quote (c :: cs)).1 = _ := congrArg Prod.fst (stringLength_other escape oneLine)
  change stringMarks quote offset (c :: cs) = _
  split
  · rename_i same
    rw [if_pos same] at length
    rw [stringMarks_eq offset length]
    rfl
  · rename_i other
    rw [if_neg other] at length
    rw [stringMarks_eq offset length, take_succ_cons, drop_succ_cons, byteLength_cons, ← Nat.add_assoc]
    rfl

theorem scanning_literal (quoted : isQuote quote) (escape : c ≠ '\\') (oneLine : c ≠ '\n')
    (unseen : overlooked quote (c :: cs)) :
    scanComments offset (literal quote).scanning (c :: cs) =
      scanComments (offset + c.utf8Size) (if c == quote then code else literal quote).scanning cs := by
  rcases (by simpa [isQuote] using quoted) with rfl | rfl
  · have mode : (if c == '"' then code else literal '"').scanning =
        if c == '"' || c == '\n' then .code else .string := by
      rw [beq_eq_false_iff_ne.mpr oneLine, Bool.or_false]
      split <;> rfl
    rw [mode]
    exact scanComments_string offset escape
  · obtain ⟨double, other⟩ : c ≠ '"' ∧ opensComment (c :: cs) = false := by simpa [overlooked] using unseen
    have mode : (if c == '\'' then code else literal '\'').scanning = if c == '"' then .string else .code := by
      rw [beq_eq_false_iff_ne.mpr double]
      split <;> rfl
    rw [mode]
    exact scanComments_code offset other

theorem scanning_escape (quoted : isQuote quote) (unseen : overlooked quote (c :: cs)) :
    scanComments offset (literal quote).scanning ('\\' :: c :: cs) =
      scanComments (offset + 1 + c.utf8Size) (literal quote).scanning cs := by
  rcases (by simpa [isQuote] using quoted) with rfl | rfl
  · rfl
  · obtain ⟨double, other⟩ : c ≠ '"' ∧ opensComment (c :: cs) = false := by simpa [overlooked] using unseen
    have first : scanComments offset .code ('\\' :: c :: cs) = scanComments (offset + 1) .code (c :: cs) :=
      scanComments_code offset (opensComment_of_ne (by decide) _)
    have second := scanComments_code (offset + 1) other
    rw [beq_eq_false_iff_ne.mpr double] at second
    exact first.trans second

end Steps

/-- Both scans follow a line alike: the lexer is in a comment behind it when the scan for comments says so, and else it
is at the start of a fresh line. -/
theorem marks_line {reading : Reading} {line feed more : List Char} (ends : Ends feed more) (oneLine : '\n' ∉ line)
    (quoted : ∀ quote, reading = literal quote → isQuote quote) (calm : reading.tame line)
    (offset place : Nat) :
    reading.marks offset (line ++ (feed ++ more)) =
      marksBehind (scanComments place reading.scanning line).2 (offset + byteLength line + byteLength feed) more := by
  -- The cases are those of `tame`: the end of the line, two of comments, three of strings and three of code.
  fun_induction tame reading line generalizing offset place with
  | case1 reading =>
    cases reading with
    | code => exact marks_of_ends offset false ends
    | literal quote =>
      have outside : (scanComments place (literal quote).scanning []).2 = false := by
        rw [scanning]
        split <;> rfl
      rw [outside]
      exact stringMarks_of_ends offset quote ends
    | comment => exact commentMarks_of_ends offset ends
  | case2 _ ih =>
    have later := ih (by simp_all) nofun calm (offset + 2) (place + 2)
    rw [byteLength_cons, byteLength_cons, ← Nat.add_assoc, ← Nat.add_assoc]
    exact later
  | case3 c cs goesOn ih =>
    have other : ∀ rest, c :: cs ≠ '*' :: '/' :: rest := by
      intro rest same
      cases same
      exact goesOn _ rfl rfl
    have later := ih (by simp_all) nofun calm (offset + c.utf8Size) (place + c.utf8Size)
    rw [byteLength_cons, ← Nat.add_assoc, scanning, scanComments_comment place other, ← scanning, ← later]
    exact commentMarks_other offset (ne_close_append ends other)
  | case4 => exact absurd calm Bool.false_ne_true
  | case5 quote c _ ih =>
    obtain ⟨unseen, calm⟩ := Bool.and_eq_true_iff.mp calm
    have later := ih (by simp_all) quoted calm (offset + 1 + c.utf8Size) (place + 1 + c.utf8Size)
    rw [byteLength_cons, byteLength_cons, ← Nat.add_assoc, ← Nat.add_assoc,
      scanning_escape place (quoted quote rfl) unseen]
    exact (stringMarks_escape offset).trans later
  | case6 quote c cs notLast notEscape ih =>
    obtain ⟨unseen, calm⟩ := Bool.and_eq_true_iff.mp calm
    obtain ⟨feedFirst, feedLater⟩ := not_or.mp (mt mem_cons.mpr oneLine)
    have escape : c ≠ '\\' := by
      rintro rfl
      cases cs with
      | nil => exact notLast rfl rfl
      | cons second cs => exact notEscape second cs rfl rfl
    have quotedLater : ∀ quote', (if c == quote then code else literal quote) = literal quote' →
        isQuote quote' := by
      intro quote' same
      split at same
      · cases same
      · exact quoted quote' same
    have later := ih feedLater quotedLater calm (offset + c.utf8Size) (place + c.utf8Size)
    rw [byteLength_cons, ← Nat.add_assoc,
      scanning_literal place (quoted quote rfl) escape (Ne.symm feedFirst) unseen, ← later]
    exact marks_literal offset escape (Ne.symm feedFirst)
  | case7 cs =>
    rw [byteLength_cons, byteLength_cons, ← Nat.add_assoc, ← Nat.add_assoc]
    exact marks_lineComment offset (by simp_all) ends
  | case8 _ ih =>
    have later := ih (by simp_all) nofun calm (offset + 2) (place + 2)
    rw [byteLength_cons, byteLength_cons, ← Nat.add_assoc, ← Nat.add_assoc]
    exact (marks_blockComment offset).trans later
  | case9 c cs notLine notBlock ih =>
    obtain ⟨feedFirst, feedLater⟩ := not_or.mp (mt mem_cons.mpr oneLine)
    have other : opensComment (c :: cs) = false := by
      cases cs with
      | nil => rfl
      | cons _ cs =>
        rw [opensComment, Bool.eq_false_iff]
        intro opens
        rcases (by simpa using opens) with ⟨rfl, rfl | rfl⟩
        · exact notLine cs rfl rfl
        · exact notBlock cs rfl rfl
    have quotedLater : ∀ quote, (if isQuote c then literal c else code) = literal quote → isQuote quote := by
      intro quote same
      split at same
      · cases same
        assumption
      · cases same
    have later := ih feedLater quotedLater calm (offset + c.utf8Size) (place + c.utf8Size)
    rw [byteLength_cons, ← Nat.add_assoc, scanning_code place other, ← later]
    exact marks_code offset (Ne.symm feedFirst) (opensComment_append ends other)

end Reading

end ScriptLint
