import ScriptLint.Text.Span

/-!
# Lines and positions

A line index holds the offset at which every line starts. It turns byte offsets into lines and into
positions whose columns count characters.
-/

namespace ScriptLint

/-- A place in a document as a reader names it: line and column count from one. -/
structure Position where
  line : Nat
  column : Nat
  offset : Nat
  deriving Repr, DecidableEq, Inhabited

def Position.render (position : Position) : String :=
  s!"{position.line}:{position.column}"

/-- Where the lines of a text start, and the length of the text in bytes. -/
structure LineIndex where
  starts : List Nat
  length : Nat
  deriving Repr, DecidableEq, Inhabited

namespace LineIndex

/-- Offsets right after each line feed of a text that begins at `offset`. -/
def startsAfter (offset : Nat) : List Char → List Nat
  | [] => []
  | c :: cs =>
    let next := offset + c.utf8Size
    if c == '\n' then next :: startsAfter next cs else startsAfter next cs

def ofText (text : List Char) : LineIndex where
  starts := 0 :: startsAfter 0 text
  length := Text.byteLength text

def lineCount (index : LineIndex) : Nat := index.starts.length

/-- The line that holds an offset, counted from zero. Offsets past the end belong to the last line. -/
def lineOf (index : LineIndex) (offset : Nat) : Nat :=
  index.starts.countP (· ≤ min offset index.length) - 1

/-- Where a line starts; lines past the last one start at the end of the text. -/
def lineStart (index : LineIndex) (line : Nat) : Nat :=
  index.starts[line]?.getD index.length

/-- The position of an offset. Inside a character the column counts bytes instead. -/
def position (index : LineIndex) (text : List Char) (offset : Nat) : Position :=
  let offset := min offset index.length
  let line := index.lineOf offset
  let start := index.lineStart line
  let column := match Text.slice? text start offset with
    | some cs => cs.length
    | none => offset - start
  ⟨line + 1, column + 1, offset⟩

end LineIndex

end ScriptLint
