import ScriptLint.Preprocess.Line

/-!
# Directives

A directive line is a keyword and what follows it, with continued lines joined and comments taken out.
-/

namespace ScriptLint.Preprocess

/-- What a directive asks for. -/
inductive Keyword where
  | ifTrue
  | ifDefined
  | ifNotDefined
  | elseIf
  | otherwise
  | endIf
  | define
  | undefine
  | inclusion
  | error
  | warning
  /-- Accepted without any effect. -/
  | idle
  | unknown (name : String)
  deriving Repr, DecidableEq

def Keyword.ofName (name : String) : Keyword :=
  match name with
  | "if" => ifTrue
  | "ifdef" => ifDefined
  | "ifndef" => ifNotDefined
  | "elif" => elseIf
  | "else" => otherwise
  | "endif" => endIf
  | "define" => define
  | "undef" => undefine
  | "include" => inclusion
  | "error" => error
  | "warning" => warning
  | "pragma" | "line" | "" => idle
  | name => unknown name

structure Directive where
  keyword : Keyword
  /-- What follows the keyword. -/
  rest : List Char
  /-- The offset right behind the keyword. -/
  restOffset : Nat
  /-- From the `#` to the end of the line. -/
  span : Span
  deriving Repr, DecidableEq

/-- Take out each backslash before a carriage return and a line feed, with the carriage return. -/
def joinReturns : List Char → List Char
  | [] => []
  | '\\' :: '\r' :: '\n' :: cs => '\n' :: joinReturns cs
  | c :: cs => c :: joinReturns cs

/-- Take out each backslash before a line feed. -/
def joinFeeds : List Char → List Char
  | [] => []
  | '\\' :: '\n' :: cs => '\n' :: joinFeeds cs
  | c :: cs => c :: joinFeeds cs

/-- What follows a block comment's end; nothing when it has none. -/
def afterComment : List Char → List Char
  | [] => []
  | '*' :: '/' :: cs => cs
  | _ :: cs => afterComment cs

theorem length_afterComment_le (cs : List Char) : (afterComment cs).length ≤ cs.length := by
  fun_induction afterComment cs <;> grind

/-- Take comments out, except in strings. A block comment leaves one space. -/
def stripComments : (quote : Option Char) → List Char → List Char
  | _, [] => []
  | some quote, '\\' :: c :: cs => '\\' :: c :: stripComments (some quote) cs
  | some quote, c :: cs => c :: stripComments (if c == quote then none else some quote) cs
  | none, '/' :: '/' :: cs => stripComments none (cs.dropWhile (· != '\n'))
  | none, '/' :: '*' :: cs => ' ' :: stripComments none (afterComment cs)
  | none, c :: cs => c :: stripComments (if c == '"' || c == '\'' then some c else none) cs
termination_by _ cs => cs.length
decreasing_by
  · simp only [List.length_cons]; omega
  · simp
  · have := (List.dropWhile_sublist (· != '\n') (l := cs)).length_le
    simp only [List.length_cons]; omega
  · have := length_afterComment_le cs
    simp only [List.length_cons]; omega
  · simp

/-- Split a directive line, given with its offset. -/
def Directive.read (start : Nat) (line : List Char) : Directive :=
  let indent := line.takeWhile Text.isLineBlank
  let afterHash := line.drop (indent.length + 1)
  let blanks := afterHash.takeWhile Text.isLineBlank
  let (name, raw) := Text.scanIdent (afterHash.drop blanks.length)
  let hash := start + indent.length
  let stop := start + Text.byteLength line
  { keyword := .ofName (String.ofList name)
    rest := Text.trimEnd (stripComments none (joinFeeds (joinReturns raw)))
    restOffset := hash + 1 + blanks.length + name.length
    span := ⟨hash, if line.getLast? == some '\r' then stop - 1 else stop⟩ }

namespace Directive

def name? (directive : Directive) : Option String :=
  match Text.scanIdent (Text.trimStart directive.rest) with
  | ([], _) => none
  | (word, _) => some (String.ofList word)

/-- The text of a message, without quotes around it. -/
def messageText (directive : Directive) : String :=
  String.ofList (Text.trimEndWhile (· == '"') ((Text.trim directive.rest).dropWhile (· == '"')))

end Directive

/-- The target of an include, its offset in the text, and whether it stands in angle brackets. -/
structure Target where
  text : String
  offset : Nat
  angled : Bool
  deriving Repr, DecidableEq

def Target.upTo (close : Char) (angled : Bool) (offset : Nat) (cs : List Char) : Option Target :=
  let text := cs.takeWhile (· != close)
  if text.length == cs.length || (Text.trim text).isEmpty then none
  else some ⟨String.ofList text, offset, angled⟩

def Target.read? (rest : List Char) : Option Target :=
  let lead := Text.byteLength (rest.takeWhile Text.isWhite)
  match Text.trimStart rest with
  | '"' :: cs => upTo '"' false (lead + 1) cs
  | '<' :: cs => upTo '>' true (lead + 1) cs
  | _ => none

end ScriptLint.Preprocess
