import ScriptLint.Diagnostic
import ScriptLint.Text.Chars
import ScriptLint.Text.Literal
import ScriptLint.Token

/-!
# Cutting a text into tokens

A document is first divided into the regions between its disabled ranges. Each region is then cut
into pieces from the left: blanks, tokens, and characters that fit nowhere. A piece is found by how
many characters follow its first one, so every step makes progress and nothing is lost.
-/

namespace ScriptLint

namespace Lexer

/-- What is wrong with a piece of text. -/
inductive Problem where
  | unclosedComment
  | unterminatedString
  | noHexDigits
  | unexpected (c : Char)
  deriving Repr, DecidableEq

def Problem.message : Problem → String
  | unclosedComment => "block comment is not closed"
  | unterminatedString => "unterminated string literal"
  | noHexDigits => "hexadecimal literal has no digits"
  | unexpected c => s!"unexpected character '{c}'"

/-- The text between two disabled ranges. -/
structure Region where
  start : Nat
  chars : List Char
  /-- The character that follows in the document. -/
  next : Option Char
  /-- Disabled text lies right before, so the region begins a line. -/
  afterGap : Bool
  deriving Repr, DecidableEq

/-- Divide the text from `offset` on. Ranges are given in order; one that is empty separates two
regions without a gap between them. -/
def regions (offset : Nat) (afterGap : Bool) : (disabled : List Span) → List Char → List Region
  | [], cs => [⟨offset, cs, none, afterGap⟩]
  | range :: ranges, cs =>
    if range.stop ≤ offset then regions offset afterGap ranges cs
    else if range.start ≤ offset then
      regions range.stop true ranges (Text.splitBytes (range.stop - offset) cs).2
    else
      let (window, beyond) := Text.splitBytes (range.start - offset) cs
      ⟨offset, window, beyond.head?, afterGap⟩ ::
        (if range.stop ≤ range.start then regions range.start false ranges beyond
        else regions range.stop true ranges
          (Text.splitBytes (range.stop - range.start) beyond).2)

def isOpChar (c : Char) : Bool :=
  "+-*/%=<>!~&|^".toList.contains c

def isPunctChar (c : Char) : Bool :=
  "(){}[];,.@".toList.contains c

/-- The operators of two characters. -/
def pairs : List (Char × Char) :=
  [('+', '+'), ('-', '-'), ('+', '='), ('-', '='), ('*', '='), ('/', '='), ('%', '='), ('=', '='),
    ('!', '='), ('<', '='), ('>', '='), ('&', '&'), ('|', '|'), ('<', '<'), ('>', '>')]

/-- One less when the last of the first `count` characters is a carriage return. -/
def withoutReturn (count : Nat) (cs : List Char) : Nat :=
  if (cs.take count).getLast? == some '\r' then count - 1 else count

/-- Whether a line that ends after these characters, latest first, goes on on the next line. -/
def continues : (before : List Char) → Bool
  | '\\' :: _ => true
  | '\r' :: '\\' :: _ => true
  | _ => false

/-- Length of a directive after the characters `before`, latest first, up to the first line feed
that no backslash precedes. -/
def directiveLength (before : List Char) : List Char → Nat
  | [] => 0
  | c :: cs =>
    if c == '\n' && !continues before then 0 else directiveLength (c :: before) cs + 1

def lineLength (cs : List Char) : Nat :=
  (cs.takeWhile (· != '\n')).length

/-- Length of a comment's body with its closing mark, if it is closed. -/
def closedLength? : List Char → Option Nat
  | [] => none
  | '*' :: '/' :: _ => some 2
  | _ :: cs => (closedLength? cs).map (· + 1)

def digitsLength (cs : List Char) : Nat :=
  (cs.takeWhile Text.isDigit).length

def fractionLength : List Char → Nat
  | '.' :: cs => digitsLength cs + 1
  | _ => 0

/-- Length of an exponent; without digits there is none. -/
def exponentLength : List Char → Nat
  | [] => 0
  | c :: cs =>
    if c == 'e' || c == 'E' then
      let sign := match cs with
        | '+' :: _ | '-' :: _ => 1
        | _ => 0
      let digits := digitsLength (cs.drop sign)
      if digits == 0 then 0 else 1 + sign + digits
    else 0

def numberLength (first : Char) (cs : List Char) : Nat :=
  let whole := digitsLength cs
  let fraction := if first == '.' then 0 else fractionLength (cs.drop whole)
  whole + fraction + exponentLength (cs.drop (whole + fraction))

/-- What the text at a character is: its kind, unless it fits nowhere, how many characters follow
the first, and what is wrong with it. -/
structure Lexeme where
  kind : Option TokenKind
  tail : Nat
  problem : Option Problem
  deriving Repr, DecidableEq

namespace Lexeme

def good (kind : TokenKind) (tail : Nat) : Lexeme := ⟨some kind, tail, none⟩

def blockComment (cs : List Char) : Lexeme :=
  match closedLength? (cs.drop 1) with
  | some length => good .comment (length + 1)
  | none => ⟨some .comment, cs.length, some .unclosedComment⟩

def string (quote : Char) (cs : List Char) : Lexeme :=
  match Text.stringLength quote cs with
  | (length, true) => good .str length
  | (length, false) => ⟨some .str, length, some .unterminatedString⟩

def number (first : Char) (cs : List Char) : Lexeme :=
  if first == '0' && (cs.head? == some 'x' || cs.head? == some 'X') then
    let digits := ((cs.drop 1).takeWhile Text.isHexDigit).length
    ⟨some .number, digits + 1, if digits == 0 then some .noHexDigits else none⟩
  else good .number (numberLength first cs)

def operator (first : Char) (cs : List Char) : Lexeme :=
  match cs with
  | second :: _ => good .op (if pairs.contains (first, second) then 1 else 0)
  | [] => good .op 0

/-- Classify the text `c :: cs`, which is not blank. `next` is what follows the region, and `fresh`
says that only blanks precede on the line. -/
def classify (fresh : Bool) (next : Option Char) (c : Char) (cs : List Char) : Lexeme :=
  let second := cs.head?.or next
  if c == '#' && fresh then good .directive (withoutReturn (directiveLength [c] cs) cs)
  else if c == '/' && second == some '/' then good .comment (withoutReturn (lineLength cs) cs)
  else if c == '/' && second == some '*' then blockComment cs
  else if Text.isQuote c then string c cs
  else if Text.isDigit c || (c == '.' && second.any Text.isDigit) then number c cs
  else if Text.isIdentStart c then good .ident (cs.takeWhile Text.isIdentPart).length
  else if isOpChar c then operator c cs
  else if isPunctChar c then good .punct 0
  else ⟨none, 0, some (.unexpected c)⟩

end Lexeme

/-- A stretch of text after cutting: a blank, a token, or an unexpected character. -/
structure Piece where
  offset : Nat
  chars : List Char
  kind : Option TokenKind
  problem : Option Problem
  deriving Repr, DecidableEq

namespace Piece

def span (piece : Piece) : Span :=
  ⟨piece.offset, piece.offset + Text.byteLength piece.chars⟩

def token? (piece : Piece) : Option Token :=
  piece.kind.map fun kind => ⟨kind, String.ofList piece.chars, piece.span⟩

def diagnostic? (piece : Piece) : Option Diagnostic :=
  piece.problem.map fun problem => ⟨.malformed, problem.message, piece.span, .lexer⟩

end Piece

/-- Cut the text of a region from `offset` on. The flag tells whether the line is still fresh, also
at the end. -/
def cut (next : Option Char) (fresh : Bool) (offset : Nat) : List Char → List Piece × Bool
  | [] => ([], fresh)
  | c :: cs =>
    if Text.isTokenBlank c then
      let (pieces, fresh) := cut next (fresh || c == '\n') (offset + c.utf8Size) cs
      (⟨offset, [c], none, none⟩ :: pieces, fresh)
    else
      let lexeme := Lexeme.classify fresh next c cs
      let piece : Piece := ⟨offset, c :: cs.take lexeme.tail, lexeme.kind, lexeme.problem⟩
      let (pieces, fresh) := cut next (fresh && lexeme.kind.isNone) piece.span.stop
        (cs.drop lexeme.tail)
      (piece :: pieces, fresh)
termination_by cs => cs.length
decreasing_by
  · simp
  · simp only [List.length_drop, List.length_cons]; omega

/-- Cut regions one after the other. -/
def cutRegions (fresh : Bool) : List Region → List Piece
  | [] => []
  | region :: rest =>
    let (pieces, fresh) := cut region.next (fresh || region.afterGap) region.start region.chars
    pieces ++ cutRegions fresh rest

/-- All pieces of a text outside its disabled ranges. -/
def pieces (text : List Char) (disabled : List Span) : List Piece :=
  cutRegions true (regions 0 false disabled text)

end Lexer

structure Lexed where
  tokens : List Token
  diagnostics : List Diagnostic
  deriving Repr, DecidableEq

/-- Cut a text into tokens, leaving out its disabled ranges. -/
def tokenize (text : List Char) (disabled : List Span) : Lexed :=
  let pieces := Lexer.pieces text disabled
  ⟨pieces.filterMap Lexer.Piece.token?, pieces.filterMap Lexer.Piece.diagnostic?⟩

end ScriptLint
