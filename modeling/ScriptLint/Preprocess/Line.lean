import ScriptLint.Text.Chars
import ScriptLint.Text.Span

/-!
# Logical lines

The lines that preprocessing works on. A line whose first character after blanks is `#`, outside a block
comment, is a directive and goes on over every line end that a backslash precedes. Every other line is one
physical line.
-/

namespace ScriptLint.Preprocess

/-- A comment to the end of its line: its offset, and its text after the slashes. -/
structure Remark where
  offset : Nat
  body : List Char
  deriving Repr, DecidableEq

/-- Where a scan for comments stands. -/
inductive Scanning where
  | code
  | string
  | comment
  deriving Repr, DecidableEq

/-- Scan a line for a comment that runs to its end, and tell whether a block comment is open behind it. -/
def scanComments (offset : Nat) : Scanning → List Char → Option Remark × Bool
  | mode, [] => (none, mode == .comment)
  | .comment, '*' :: '/' :: cs => scanComments (offset + 2) .code cs
  | .comment, c :: cs => scanComments (offset + c.utf8Size) .comment cs
  | .string, '\\' :: c :: cs => scanComments (offset + 1 + c.utf8Size) .string cs
  | .string, c :: cs =>
    scanComments (offset + c.utf8Size) (if c == '"' || c == '\n' then .code else .string) cs
  | .code, '/' :: '/' :: cs => (some ⟨offset, cs⟩, false)
  | .code, '/' :: '*' :: cs => scanComments (offset + 2) .comment cs
  | .code, c :: cs => scanComments (offset + c.utf8Size) (if c == '"' then .string else .code) cs

structure Line where
  start : Nat
  /-- Counted from zero; a directive counts where it begins. -/
  number : Nat
  /-- Without the line feed that ends it. -/
  text : List Char
  isDirective : Bool
  remark : Option Remark
  /-- Where the next line begins. -/
  next : Nat
  deriving Repr, DecidableEq

/-- Whether the text of a physical line asks to go on on the next one. -/
def continued (text : List Char) : Bool :=
  match text.reverse with
  | '\\' :: _ => true
  | '\r' :: '\\' :: _ => true
  | _ => false

/-- A physical line with all that it goes on with, and the lines after it. -/
def joinContinued (text : List Char) : (rest : List (List Char)) → List Char × List (List Char)
  | [] => (text, [])
  | next :: rest =>
    if continued text then
      let (joined, after) := joinContinued next rest
      (text ++ '\n' :: joined, after)
    else (text, next :: rest)

theorem length_joinContinued_le (text : List Char) (rest : List (List Char)) :
    (joinContinued text rest).2.length ≤ rest.length := by
  induction rest generalizing text with
  | nil => simp [joinContinued]
  | cons next rest ih =>
    unfold joinContinued
    split
    · have := ih next
      simp only [List.length_cons]; omega
    · simp

/-- Whether a physical line begins with `#` after blanks. -/
def startsDirective (text : List Char) : Bool :=
  (text.dropWhile Text.isLineBlank).head? == some '#'

/-- Group physical lines. Nothing after the last line feed is no line. -/
def group (start number : Nat) (inComment : Bool) : List (List Char) → List Line
  | [] => []
  | physical :: rest =>
    if physical.isEmpty && rest.isEmpty then []
    else
      let isDirective := !inComment && startsDirective physical
      let joined := if isDirective then joinContinued physical rest else (physical, rest)
      let text := joined.1
      let after := joined.2
      let (remark, inComment) := scanComments start (if inComment then .comment else .code) text
      let stop := start + Text.byteLength text
      let next := if after.isEmpty then stop else stop + 1
      ⟨start, number, text, isDirective, remark, next⟩ ::
        group next (number + text.count '\n' + 1) inComment after
termination_by physical => physical.length
decreasing_by
  have := length_joinContinued_le physical rest
  simp only [List.length_cons]
  split
  · omega
  · simp

def lines (text : List Char) : List Line :=
  group 0 0 false (Text.splitAtChars (· == '\n') text)

end ScriptLint.Preprocess
