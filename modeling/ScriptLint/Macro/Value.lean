import ScriptLint.Number.Decimal
import ScriptLint.SemType

/-!
# Literal values

The value of a definition's body when it is one literal and nothing else.
-/

namespace ScriptLint.Macro

inductive Value where
  | int (n : Int64)
  | float (x : Float)
  | bool (b : Bool)
  | str (text : String)
  deriving Repr

namespace Value

def semType : Value → SemType
  | int _ | bool _ => .integer
  | float _ => .float
  | str _ => .string

/-- A quote that no backslash precedes. -/
def hasBareQuote : List Char → Bool
  | [] => false
  | '\\' :: [] => false
  | '\\' :: _ :: cs => hasBareQuote cs
  | c :: cs => c == '"' || hasBareQuote cs

/-- Undo the escapes of a string; a backslash at the end stands for itself. -/
def unescape : List Char → List Char
  | [] => []
  | '\\' :: [] => ['\\']
  | '\\' :: 'n' :: cs => '\n' :: unescape cs
  | '\\' :: 't' :: cs => '\t' :: unescape cs
  | '\\' :: c :: cs => c :: unescape cs
  | c :: cs => c :: unescape cs

/-- A character that may stand in a decimal number with a point or an exponent. -/
def isDecimalPart (c : Char) : Bool :=
  Text.isDigit c || ".eE+-".toList.contains c

def magnitude? : List Char → Option Value
  | '0' :: 'x' :: cs | '0' :: 'X' :: cs => (Number.readInt64? 16 cs).map int
  | [] => none
  | c :: cs =>
    if (c :: cs).all Text.isDigit then (Number.readInt64? 10 (c :: cs)).map int
    else if (c :: cs).all isDecimalPart && (Text.isDigit c || c == '.') then
      (Number.Decimal.read? (c :: cs)).map fun value => float value.toFloat
    else none

def negate : Value → Value
  | int n => int (-n)
  | float x => float (-x)
  | value => value

/-- Read a number; blanks may follow its minus sign. -/
def number? : List Char → Option Value
  | '-' :: cs => (magnitude? (Text.trimStart cs)).map negate
  | cs => magnitude? cs

/-- Read a quoted text, given without its opening quote. -/
def quoted? (cs : List Char) : Option Value :=
  let inner := cs.dropLast
  if hasBareQuote inner then none else some (str (String.ofList (unescape inner)))

def ofTrimmed? (cs : List Char) : Option Value :=
  match cs, String.ofList cs with
  | [], _ => none
  | _, "TRUE" | _, "true" => some (bool true)
  | _, "FALSE" | _, "false" => some (bool false)
  | '"' :: rest, _ => if rest.getLast? == some '"' then quoted? rest else none
  | cs, _ => number? cs

def parse? (body : String) : Option Value :=
  ofTrimmed? (Text.trim body.toList)

end Value

end ScriptLint.Macro
