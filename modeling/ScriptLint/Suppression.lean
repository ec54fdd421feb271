import ScriptLint.Diagnostic
import ScriptLint.Text.Chars
import ScriptLint.Text.Lines

/-!
# Suppression comments

A comment may switch diagnostics off for its own line, for the next one, or from there on until they are
switched on again. It names the codes it means; without any it means all of them. Words after `--` explain
and are not read.
-/

namespace ScriptLint

inductive CodeSet where
  | all
  | only (codes : List Code)
  | except (codes : List Code)
  deriving Repr, DecidableEq

namespace CodeSet

def contains : CodeSet → Code → Bool
  | all, _ => true
  | only codes, code => codes.contains code
  | except codes, code => !codes.contains code

/-- What is left without some codes, unless nothing is. -/
def without? : CodeSet → List Code → Option CodeSet
  | all, codes => some (except codes)
  | only own, codes =>
    match own.filter fun code => !codes.contains code with
    | [] => none
    | rest => some (only rest)
  | except own, codes => some (except (own ++ codes.filter fun code => !own.contains code))

/-- The codes that a comment means: all of them when it has no words. -/
def ofMention : Option (List Code) → CodeSet
  | none => all
  | some codes => only codes

end CodeSet

namespace Suppression

inductive Action where
  | disableNextLine
  | disableLine
  | disable
  | enable
  deriving Repr, DecidableEq

def Action.keyword : Action → String
  | disableNextLine => "lsl-disable-next-line"
  | disableLine => "lsl-disable-line"
  | disable => "lsl-disable"
  | enable => "lsl-enable"

/-- An action and the codes it names; `none` when it has no words at all. -/
structure Comment where
  action : Action
  codes : Option (List Code)
  deriving Repr, DecidableEq

/-- What may follow a keyword. -/
def endsKeyword : List Char → Bool
  | [] => true
  | c :: _ => Text.isWhite c || c == ':'

/-- The action at the front of a comment and the text of its codes. -/
def readAction? (body : List Char) : Option (Action × List Char) :=
  [Action.disableNextLine, .disableLine, .disable, .enable].findSome? fun action =>
    match Text.dropBeginning? action.keyword.toList body with
    | some rest => if endsKeyword rest then some (action, rest.dropWhile (· == ':')) else none
    | none => none

/-- The words of a code list, up to an explanation. -/
def words (cs : List Char) : List String :=
  let parts := Text.splitAtChars (fun c => c == ',' || Text.isWhite c) cs
  ((parts.filter fun part => !part.isEmpty).map String.ofList).takeWhile (· != "--")

/-- The codes among some words; unknown words name none. -/
def mention (words : List String) : Option (List Code) :=
  if words.isEmpty then none else some (words.filterMap fun word => (Code.parse word).toOption)

def Comment.read? (body : List Char) : Option Comment :=
  (readAction? (Text.trim body)).map fun (action, rest) => ⟨action, mention (words rest)⟩

/-- Codes that are off on one line. -/
structure LineRule where
  line : Nat
  codes : CodeSet
  deriving Repr, DecidableEq

/-- Codes that are off from an offset on, up to another one or to the end. -/
structure BlockRule where
  start : Nat
  stop : Option Nat
  codes : CodeSet
  deriving Repr, DecidableEq

namespace BlockRule

def covers (rule : BlockRule) (offset : Nat) : Bool :=
  rule.start ≤ offset && rule.stop.all (offset < ·)

def suppresses (rule : BlockRule) (code : Code) (offset : Nat) : Bool :=
  rule.covers offset && rule.codes.contains code

end BlockRule

end Suppression

open Suppression in
/-- The rules that the comments of a document make, in their order. -/
structure Suppressions where
  lines : List LineRule := []
  blocks : List BlockRule := []
  /-- Blocks that no comment has ended yet. -/
  pending : List BlockRule := []
  deriving Repr, DecidableEq, Inhabited

namespace Suppressions

open Suppression

/-- What is still off of a block when some codes are switched on; all of them without a list. -/
def reopen? (offset : Nat) (codes : Option (List Code)) (block : BlockRule) : Option BlockRule :=
  (codes.bind block.codes.without?).map fun rest => ⟨offset, none, rest⟩

/-- Switch codes on: every pending block ends, and what it has left goes on. -/
def enable (rules : Suppressions) (offset : Nat) (codes : Option (List Code)) : Suppressions :=
  { rules with
    blocks := rules.blocks ++ rules.pending.map fun block => { block with stop := some offset }
    pending := rules.pending.filterMap (reopen? offset codes) }

/-- Carry out what a comment at an offset and a line asks for. -/
def apply (rules : Suppressions) (comment : Comment) (offset line : Nat) : Suppressions :=
  let codes := CodeSet.ofMention comment.codes
  match comment.action with
  | .disableNextLine => { rules with lines := rules.lines ++ [⟨line + 1, codes⟩] }
  | .disableLine => { rules with lines := rules.lines ++ [⟨line, codes⟩] }
  | .disable => { rules with pending := rules.pending ++ [⟨offset, none, codes⟩] }
  | .enable => rules.enable offset comment.codes

/-- Take in a comment, given by the text after `//`. -/
def addComment (rules : Suppressions) (body : List Char) (offset line : Nat) : Suppressions :=
  match Comment.read? body with
  | some comment => rules.apply comment offset line
  | none => rules

/-- Pending blocks run to the end of the document. -/
def finish (rules : Suppressions) : Suppressions :=
  { rules with blocks := rules.blocks ++ rules.pending, pending := [] }

def isEmpty (rules : Suppressions) : Bool :=
  rules.lines.isEmpty && rules.blocks.isEmpty && rules.pending.isEmpty

def onLine (rules : Suppressions) (code : Code) (line : Nat) : Bool :=
  rules.lines.any fun rule => rule.line == line && rule.codes.contains code

def inBlock (rules : Suppressions) (code : Code) (offset : Nat) : Bool :=
  (rules.blocks ++ rules.pending).any fun rule => rule.suppresses code offset

def suppresses (rules : Suppressions) (index : LineIndex) (code : Code) (offset : Nat) : Bool :=
  rules.onLine code (index.lineOf offset) || rules.inBlock code offset

end Suppressions

end ScriptLint
