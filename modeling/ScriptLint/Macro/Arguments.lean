import ScriptLint.Text.Chars
import ScriptLint.Text.Literal
import ScriptLint.Text.Span

/-!
# Arguments of a call

Finding the text between a call's parentheses and splitting it at its own commas. Only parentheses and
quotes matter for the end of a call; a comma inside any bracket, angle bracket or string splits nothing.
-/

namespace ScriptLint.Macro

/-- What encloses a place in an argument text. -/
structure Nesting where
  depth : Int := 0
  angle : Nat := 0
  quote : Option Char := none
  escaped : Bool := false
  deriving Repr, DecidableEq

namespace Nesting

/-- A comma here ends an argument. -/
def splits (nesting : Nesting) : Bool :=
  nesting.quote.isNone && nesting.depth == 0 && nesting.angle == 0

/-- What encloses the place after one more character. -/
def step (nesting : Nesting) (c : Char) : Nesting :=
  match nesting.quote with
  | some quote =>
    if nesting.escaped then { nesting with escaped := false }
    else if c == '\\' then { nesting with escaped := true }
    else if c == quote then { nesting with quote := none }
    else nesting
  | none =>
    if Text.isQuote c then { nesting with quote := some c }
    else if c == '(' || c == '[' || c == '{' then { nesting with depth := nesting.depth + 1 }
    else if c == ')' || c == ']' || c == '}' then { nesting with depth := nesting.depth - 1 }
    else if c == '<' then { nesting with angle := nesting.angle + 1 }
    else if c == '>' then { nesting with angle := nesting.angle - 1 }
    else nesting

end Nesting

/-- Put a character in front of the first part. -/
def ontoFirst (c : Char) : List (List Char) → List (List Char)
  | [] => [[c]]
  | part :: parts => (c :: part) :: parts

/-- Split at the commas that end an argument. -/
def splitFrom (nesting : Nesting) : List Char → List (List Char)
  | [] => [[]]
  | c :: cs =>
    if c == ',' && nesting.splits then [] :: splitFrom nesting cs
    else ontoFirst c (splitFrom (nesting.step c) cs)

/-- The arguments in the text between a call's parentheses; a blank text has none. -/
def splitArguments (inner : List Char) : List String :=
  if (Text.trim inner).isEmpty then []
  else (splitFrom {} inner).map fun part => String.ofList (Text.trim part)

/-- The text up to the parenthesis that closes `depth` others and one more, and what follows it. -/
def closeCall? : (depth : Nat) → (quote : Option Char) → List Char → Option (List Char × List Char)
  | _, _, [] => none
  | depth, some quote, '\\' :: c :: cs =>
    (closeCall? depth (some quote) cs).map fun (inner, rest) => ('\\' :: c :: inner, rest)
  | depth, some quote, c :: cs =>
    (closeCall? depth (if c == quote then none else some quote) cs).map fun (inner, rest) =>
      (c :: inner, rest)
  | depth, none, c :: cs =>
    if c == ')' then
      match depth with
      | 0 => some ([], cs)
      | depth + 1 => (closeCall? depth none cs).map fun (inner, rest) => (c :: inner, rest)
    else if c == '(' then
      (closeCall? (depth + 1) none cs).map fun (inner, rest) => (c :: inner, rest)
    else
      (closeCall? depth (if Text.isQuote c then some c else none) cs).map fun (inner, rest) =>
        (c :: inner, rest)

/-- The closing parenthesis divides the text. -/
theorem closeCall?_eq_some {depth : Nat} {quote : Option Char} {cs inner rest : List Char}
    (found : closeCall? depth quote cs = some (inner, rest)) : cs = inner ++ ')' :: rest := by
  fun_induction closeCall? depth quote cs generalizing inner rest <;>
    grind [Option.map_eq_some_iff]

/-- The argument list after a name: blanks, and the text between parentheses. -/
structure Call where
  gap : List Char
  inner : List Char
  rest : List Char
  deriving Repr, DecidableEq

namespace Call

def text (call : Call) : List Char :=
  call.gap ++ '(' :: call.inner ++ [')']

def arguments (call : Call) : List String :=
  splitArguments call.inner

/-- Read an argument list; only blanks may precede it. -/
def read? (cs : List Char) : Option Call :=
  match cs.dropWhile Text.isWordBlank with
  | '(' :: body =>
    (closeCall? 0 none body).map fun (inner, rest) => ⟨cs.takeWhile Text.isWordBlank, inner, rest⟩
  | _ => none

/-- Reading divides the text. -/
theorem read?_eq_some {cs : List Char} {call : Call} (found : read? cs = some call) :
    cs = call.text ++ call.rest := by
  unfold read? at found
  split at found
  next body starts =>
    obtain ⟨⟨inner, rest⟩, closed, rfl⟩ := Option.map_eq_some_iff.mp found
    have parts := List.takeWhile_append_dropWhile (p := Text.isWordBlank) (l := cs)
    rw [starts, closeCall?_eq_some closed] at parts
    simpa [text] using parts.symm
  next => simp at found

theorem length_rest_lt {cs : List Char} {call : Call} (found : read? cs = some call) :
    call.rest.length < cs.length := by
  have parts := congrArg List.length (read?_eq_some found)
  simp [text] at parts
  omega

theorem length_inner_lt {cs : List Char} {call : Call} (found : read? cs = some call) :
    call.inner.length < cs.length := by
  have parts := congrArg List.length (read?_eq_some found)
  simp [text] at parts
  omega

/-- Read an argument list at an offset, with the offset of what follows it. -/
def readAt? (text : List Char) (offset : Nat) : Option (Call × Nat) :=
  let (front, back) := Text.splitBytes offset text
  if Text.byteLength front == offset then
    (read? back).map fun call => (call, offset + Text.byteLength call.text)
  else none

end Call

end ScriptLint.Macro
