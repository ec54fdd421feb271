import ScriptLint.Data.Yaml

/-!
# YAML tokens

The tokens of a document. Indentation becomes explicit: where a block of entries begins and ends there is a token
of its own. That a scalar is a key shows only at the colon behind it, so the tokens that announce a key go in front
of what is already there.

Scalars without quotes and in either kind of quotes are read. Directives, anchors, tags and literal blocks are not.
-/

namespace ScriptLint.Yaml

inductive Token where
  | scalar (text : String) (plain : Bool)
  | beginSequence
  | beginMapping
  | endBlock
  /-- The dash of a block sequence. -/
  | entry
  | key
  | value
  | openSequence
  | closeSequence
  | openMapping
  | closeMapping
  | comma
  | documentStart
  | documentEnd
  deriving Repr, DecidableEq

/-! ## Characters -/

/-- Line ends of the common kinds become line feeds. -/
def unifyLineEnds : List Char → List Char
  | [] => []
  | '\r' :: '\n' :: cs => '\n' :: unifyLineEnds cs
  | c :: cs => (if c == '\r' || c.toNat == 0x85 then '\n' else c) :: unifyLineEnds cs

def isAllowed (c : Char) : Bool :=
  let n := c.toNat
  n == 9 || n == 10 || n == 13 || (0x20 ≤ n && n ≤ 0x7E) || n == 0x85 ||
    (0xA0 ≤ n && n ≤ 0xFFFD) || 0x10000 ≤ n

/-- The character that may stand in front of a line. -/
def byteOrderMark : Char := Char.ofNat 0xFEFF

def isBlank (c : Char) : Bool := c == ' ' || c == '\t'

/-- A line feed, or one of the separators of lines and paragraphs. -/
def isLineEnd (c : Char) : Bool := c == '\n' || c.toNat == 0x2028 || c.toNat == 0x2029

def isGap (c : Char) : Bool := isBlank c || isLineEnd c

/-- Whether a word ends here. -/
def atGap (cs : List Char) : Bool := cs.head?.all isGap

def isBracket (c : Char) : Bool := "[]\x7b\x7d".toList.contains c

/-- Three dashes or dots that stand alone. -/
def atDocumentMark : List Char → Bool
  | '-' :: '-' :: '-' :: cs | '.' :: '.' :: '.' :: cs => atGap cs
  | _ => false

/-- Whether a plain scalar can begin with a character. -/
def canBeginPlain (inFlow : Bool) (c : Char) (cs : List Char) : Bool :=
  if c == '-' then !cs.head?.all isBlank
  else if c == '?' || c == ':' then !inFlow && !atGap cs
  else !isGap c && !isBracket c && !",#&*!|>'\"%@`".toList.contains c

/-! ## Scalars -/

/-- White space and line ends between two words of a scalar. -/
structure Gap where
  /-- The white space in front of the first line end. -/
  blanks : List Char
  lineEnds : List Char
  /-- The column behind the gap. -/
  column : Nat
  /-- A tab stands where only spaces may. -/
  badTab : Bool
  rest : List Char

/-- Read a gap, from its beginning or from behind a line end. Behind a line end there must be no tab in front of the
column `floor`, and white space is dropped. -/
def readGap (floor : Nat) : (lineEnded : Bool) → (column : Nat) → List Char → Gap
  | _, column, [] => ⟨[], [], column, false, []⟩
  | lineEnded, column, c :: cs =>
    if isLineEnd c then
      let gap := readGap floor true 0 cs
      { gap with lineEnds := c :: gap.lineEnds }
    else if isBlank c then
      let gap := readGap floor lineEnded (column + 1) cs
      if lineEnded then { gap with badTab := gap.badTab || (c == '\t' && column < floor) }
      else { gap with blanks := c :: gap.blanks }
    else ⟨[], [], column, false, c :: cs⟩

/-- What a gap contributes to a scalar: a line feed alone counts as a space, and in front of others it is dropped. A
separator stays. -/
def Gap.text (gap : Gap) : List Char :=
  match gap.lineEnds with
  | [] => gap.blanks
  | ['\n'] => [' ']
  | '\n' :: lineEnds => lineEnds
  | lineEnds => lineEnds

/-- The characters of a plain scalar up to the next gap or mark. -/
def readPlainWord? (inFlow : Bool) : List Char → Option (List Char × List Char)
  | [] => some ([], [])
  | c :: cs =>
    let ended := isGap c || (c == ':' && atGap cs) || (inFlow && (isBracket c || c == ','))
    let refused := inFlow && c == ':' && cs.head?.any fun next => isBracket next || next == ',' || next == '?'
    if refused then none
    else if ended then some ([], c :: cs)
    else (readPlainWord? inFlow cs).map fun (word, cs) => (c :: word, cs)

/-- What was read of a plain scalar. -/
structure Plain where
  text : List Char
  /-- A line end was passed behind the last word. -/
  lineEnded : Bool
  rest : List Char

/-- Read a plain scalar from a column on. In a block it goes on over lines that are indented to `floor`. -/
def readPlain? (inFlow : Bool) (floor : Nat) :
    (limit : Nat) → (column : Nat) → (before : List Char) → (lineEnded : Bool) → List Char → Option Plain
  | 0, _, _, _, _ => none
  | limit + 1, column, before, lineEnded, cs =>
    if (column == 0 && atDocumentMark cs) || cs.head? == some '#' then some ⟨[], lineEnded, cs⟩
    else
      (readPlainWord? inFlow cs).bind fun (word, rest) =>
        if word.isEmpty then some ⟨[], lineEnded, cs⟩
        else if !rest.head?.any isGap then some ⟨before ++ word, false, rest⟩
        else
          let gap := readGap floor false (column + word.length) rest
          let ended := !gap.lineEnds.isEmpty
          if gap.badTab then none
          else if !inFlow && gap.column < floor then some ⟨before ++ word, ended, gap.rest⟩
          else
            (readPlain? inFlow floor limit gap.column gap.text ended gap.rest).map fun more =>
              { more with text := before ++ word ++ more.text }

def unescape? : Char → Option Char
  | '0' => some '\x00'
  | 'a' => some '\x07'
  | 'b' => some '\x08'
  | 't' | '\t' => some '\t'
  | 'n' => some '\n'
  | 'v' => some '\x0b'
  | 'f' => some '\x0c'
  | 'r' => some '\r'
  | 'e' => some '\x1b'
  | ' ' => some ' '
  | '"' => some '"'
  | '/' => some '/'
  | '\\' => some '\\'
  | 'N' => some (Char.ofNat 0x85)
  | '_' => some (Char.ofNat 0xA0)
  | 'L' => some (Char.ofNat 0x2028)
  | 'P' => some (Char.ofNat 0x2029)
  | _ => none

def escapeDigits? : Char → Option Nat
  | 'x' => some 2
  | 'u' => some 4
  | 'U' => some 8
  | _ => none

def readEscape? : List Char → Option (Char × List Char)
  | [] => none
  | c :: cs =>
    match escapeDigits? c with
    | none => (unescape? c).map fun c => (c, cs)
    | some count => do
      let number ← if (cs.take count).length == count then Number.readNat? 16 (cs.take count) else none
      if number.isValidChar then some (Char.ofNat number, cs.drop count) else none

/-- Read a quoted scalar behind its opening quote. A line end behind a backslash contributes nothing itself. -/
def readQuoted? (double : Bool) : (limit : Nat) → List Char → Option (List Char × List Char)
  | 0, _ | _, [] => none
  | limit + 1, c :: cs =>
    let join (gap : Gap) (before : List Char) : Option (List Char × List Char) :=
      if gap.column == 0 && atDocumentMark gap.rest then none
      else (readQuoted? double limit gap.rest).map fun (text, cs) => (before ++ text, cs)
    if isGap c then
      let gap := readGap 0 false 0 (c :: cs)
      join gap gap.text
    else if double then
      if c == '"' then some ([], cs)
      else if c == '\\' then
        if cs.head?.any isLineEnd then
          let gap := readGap 0 true 0 cs.tail
          join gap gap.lineEnds
        else
          (readEscape? cs).bind fun (c, cs) =>
            (readQuoted? double limit cs).map fun (text, cs) => (c :: text, cs)
      else (readQuoted? double limit cs).map fun (text, cs) => (c :: text, cs)
    else if c == '\'' then
      match cs with
      | '\'' :: cs => (readQuoted? double limit cs).map fun (text, cs) => ('\'' :: text, cs)
      | cs => some ([], cs)
    else (readQuoted? double limit cs).map fun (text, cs) => (c :: text, cs)

/-! ## The state of a scan -/

structure Cursor where
  rest : List Char
  line : Nat := 0
  column : Nat := 0
  index : Nat := 0

def Cursor.skip (cursor : Cursor) : (count : Nat) → Cursor
  | 0 => cursor
  | count + 1 =>
    match cursor.rest with
    | [] => cursor
    | c :: cs =>
      let next : Cursor := if isLineEnd c then ⟨cs, cursor.line + 1, 0, cursor.index + 1⟩
        else ⟨cs, cursor.line, cursor.column + 1, cursor.index + 1⟩
      next.skip count

def Cursor.skipTo (cursor : Cursor) (rest : List Char) : Cursor :=
  cursor.skip (cursor.rest.length - rest.length)

/-- A scalar or collection that is a key if a colon follows. -/
structure PossibleKey where
  /-- Nothing but a key can stand there. -/
  required : Bool
  /-- How many tokens come first. -/
  place : Nat
  line : Nat
  column : Nat
  index : Nat

/-- How far a colon may be from its key. -/
def maxKeyLength : Nat := 1024

/-- A key and its colon are on one line. -/
def PossibleKey.isOpen (key : PossibleKey) (cursor : Cursor) : Bool :=
  key.line == cursor.line && cursor.index ≤ key.index + maxKeyLength

structure Scan where
  cursor : Cursor
  tokens : Array Token := #[]
  /-- The columns of the open blocks, innermost first. -/
  blocks : List Nat := []
  /-- A new block or key can begin here. -/
  keyAllowed : Bool := true
  /-- The possible key of the document, and of each open bracket, innermost first. -/
  keys : List (Option PossibleKey) := [none]

namespace Scan

/-- Inside brackets indentation does not matter. -/
def inFlow (scan : Scan) : Bool := 1 < scan.keys.length

/-- The least column of what belongs to the innermost block. -/
def floor (scan : Scan) : Nat :=
  match scan.blocks with
  | [] => 0
  | column :: _ => column + 1

def push (scan : Scan) (token : Token) : Scan :=
  { scan with tokens := scan.tokens.push token }

def skip (scan : Scan) (count : Nat) : Scan :=
  { scan with cursor := scan.cursor.skip count }

/-- Forget the possible key, which must not be required. -/
def dropKey? (scan : Scan) : Option Scan :=
  match scan.keys with
  | some key :: keys => if key.required then none else some { scan with keys := none :: keys }
  | _ => some scan

/-- Note that what follows may be a key. -/
def noteKey? (scan : Scan) : Option Scan :=
  if !scan.keyAllowed then some scan
  else
    scan.dropKey?.map fun scan =>
      let cursor := scan.cursor
      let required := !scan.inFlow && scan.blocks.head? == some cursor.column
      let key : PossibleKey := ⟨required, scan.tokens.size, cursor.line, cursor.column, cursor.index⟩
      { scan with keys := some key :: scan.keys.tail }

def insert (scan : Scan) (place : Nat) (token : Token) : Scan :=
  { scan with tokens := scan.tokens.extract 0 place ++ #[token] ++ scan.tokens.extract place scan.tokens.size }

/-- Begin a block at a column that is deeper than the innermost one. -/
def openBlock (scan : Scan) (column place : Nat) (token : Token) : Scan :=
  if scan.inFlow || column < scan.floor then scan
  else { scan.insert place token with blocks := column :: scan.blocks }

def endBlocks (column : Nat) : List Nat → Array Token → List Nat × Array Token
  | [], tokens => ([], tokens)
  | block :: blocks, tokens =>
    if column < block then endBlocks column blocks (tokens.push .endBlock) else (block :: blocks, tokens)

def closeBlocks (scan : Scan) : Scan :=
  if scan.inFlow then scan
  else
    let (blocks, tokens) := endBlocks scan.cursor.column scan.blocks scan.tokens
    { scan with blocks, tokens }

def closeAllBlocks (scan : Scan) : Scan :=
  if scan.inFlow then scan
  else { scan with blocks := [], tokens := scan.tokens ++ Array.replicate scan.blocks.length .endBlock }

/-- Skip white space, comments and line ends. At the beginning of a line in a block a tab is not skipped, but a byte
order mark is. -/
def skipSpace (inFlow : Bool) : (atLineStart inComment keyAllowed : Bool) → List Char → Bool × List Char
  | _, _, keyAllowed, [] => (keyAllowed, [])
  | atLineStart, inComment, keyAllowed, c :: cs =>
    if isLineEnd c then skipSpace inFlow true false (keyAllowed || !inFlow) cs
    else if inComment || c == ' ' || (c == '\t' && (inFlow || !keyAllowed)) then
      skipSpace inFlow false inComment keyAllowed cs
    else if atLineStart && c == byteOrderMark then skipSpace inFlow false false keyAllowed cs
    else if c == '#' then skipSpace inFlow false true keyAllowed cs
    else (keyAllowed, c :: cs)

def toNextToken (scan : Scan) : Scan :=
  let cursor := scan.cursor
  let (keyAllowed, rest) := skipSpace scan.inFlow (cursor.column == 0) false scan.keyAllowed cursor.rest
  { scan with keyAllowed, cursor := cursor.skipTo rest }

/-! ## The tokens -/

def readOpening? (scan : Scan) (token : Token) : Option Scan :=
  scan.noteKey?.map fun scan =>
    { (scan.skip 1).push token with keys := none :: scan.keys, keyAllowed := true }

def readClosing? (scan : Scan) (token : Token) : Option Scan :=
  scan.dropKey?.map fun scan =>
    { (scan.skip 1).push token with
      keys := if scan.inFlow then scan.keys.tail else scan.keys, keyAllowed := false }

def readComma? (scan : Scan) : Option Scan :=
  scan.dropKey?.map fun scan => { (scan.skip 1).push .comma with keyAllowed := true }

/-- A mark that begins something in a block, which it can only do where a key could stand. -/
def readBlockMark? (scan : Scan) (block mark : Token) (keyAllowed : Bool) : Option Scan :=
  if !scan.inFlow && !scan.keyAllowed then none
  else
    (scan.openBlock scan.cursor.column scan.tokens.size block).dropKey?.map fun scan =>
      { (scan.skip 1).push mark with keyAllowed }

/-- A colon. It makes the possible key a key, unless that is too far away. -/
def readColon? (scan : Scan) : Option Scan :=
  match scan.keys with
  | some key :: keys =>
    if key.isOpen scan.cursor then
      let scan := (scan.insert key.place .key).openBlock key.column key.place .beginMapping
      some { (scan.skip 1).push .value with keys := none :: keys, keyAllowed := false }
    else if key.required then none
    else { scan with keys := none :: keys }.readBlockMark? .beginMapping .value !scan.inFlow
  | _ => scan.readBlockMark? .beginMapping .value !scan.inFlow

def readQuotedScalar? (scan : Scan) (double : Bool) : Option Scan :=
  scan.noteKey?.bind fun scan =>
    let rest := scan.cursor.rest.tail
    (readQuoted? double (rest.length + 1) rest).map fun (text, rest) =>
      { scan.push (.scalar (String.ofList text) false) with
        cursor := scan.cursor.skipTo rest, keyAllowed := false }

def readPlainScalar? (scan : Scan) : Option Scan :=
  scan.noteKey?.bind fun scan =>
    let cursor := scan.cursor
    (readPlain? scan.inFlow scan.floor (cursor.rest.length + 1) cursor.column [] false cursor.rest).map
      fun plain =>
        { scan.push (.scalar (String.ofList plain.text) true) with
          cursor := cursor.skipTo plain.rest, keyAllowed := plain.lineEnded }

/-- Three dashes or dots end every block. -/
def readDocumentMark? (scan : Scan) (token : Token) : Option Scan :=
  scan.closeAllBlocks.dropKey?.map fun scan => { (scan.skip 3).push token with keyAllowed := false }

/-- Read the token that begins with a character. -/
def readToken? (scan : Scan) (c : Char) (cs : List Char) : Option Scan :=
  if scan.cursor.column == 0 && c == '%' then none
  else if scan.cursor.column == 0 && atDocumentMark (c :: cs) then
    scan.readDocumentMark? (if c == '-' then .documentStart else .documentEnd)
  else if c == '[' then scan.readOpening? .openSequence
  else if c == '{' then scan.readOpening? .openMapping
  else if c == ']' then scan.readClosing? .closeSequence
  else if c == '}' then scan.readClosing? .closeMapping
  else if c == ',' then scan.readComma?
  else if c == '-' && atGap cs then scan.readBlockMark? .beginSequence .entry true
  else if c == '?' && (scan.inFlow || atGap cs) then
    scan.readBlockMark? .beginMapping .key !scan.inFlow
  else if c == ':' && (scan.inFlow || atGap cs) then scan.readColon?
  else if c == '"' then scan.readQuotedScalar? true
  else if c == '\'' then scan.readQuotedScalar? false
  else if canBeginPlain scan.inFlow c cs then scan.readPlainScalar?
  else none

/-- Read all tokens; each takes at least one character. -/
def run? : (limit : Nat) → Scan → Option (List Token)
  | 0, _ => none
  | limit + 1, scan =>
    let scan := scan.toNextToken.closeBlocks
    match scan.cursor.rest with
    | [] => scan.closeAllBlocks.dropKey?.map fun scan => scan.tokens.toList
    | c :: cs => (scan.readToken? c cs).bind (run? limit)

end Scan

def tokens? (text : String) : Option (List Token) :=
  let cs := text.toList
  if !cs.all isAllowed then none
  else
    let cs := unifyLineEnds cs
    Scan.run? (cs.length + 1) { cursor := ⟨cs, 0, 0, 0⟩ }

end ScriptLint.Yaml
