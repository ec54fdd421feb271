/-!
# String literals

How far a quoted piece of text reaches.
-/

namespace ScriptLint.Text

/-- Length of a string's text after its opening quote, and whether it is closed. A backslash takes
the next character with it, whatever that is. -/
def stringLength (quote : Char) : List Char → Nat × Bool
  | [] => (0, false)
  | '\\' :: [] => (1, false)
  | '\\' :: _ :: cs =>
    let (length, closed) := stringLength quote cs
    (length + 2, closed)
  | c :: cs =>
    if c == '\n' then (0, false)
    else if c == quote then (1, true)
    else
      let (length, closed) := stringLength quote cs
      (length + 1, closed)

/-- Either quote begins a string. -/
def isQuote (c : Char) : Bool :=
  c == '"' || c == '\''

end ScriptLint.Text
