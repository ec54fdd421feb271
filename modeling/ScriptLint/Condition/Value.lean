import ScriptLint.Number.Decimal

/-!
# Values of conditions

A condition computes with 64-bit integers that wrap around and with doubles. An operation on both kinds is
done on doubles.
-/

namespace ScriptLint.Condition

inductive Value where
  | int (n : Int64)
  | float (x : Float)
  deriving Repr

namespace Value

/-- Everything but zero counts as true. -/
def truthy : Value → Bool
  | int n => n != 0
  | float x => x != 0

def toFloat : Value → Float
  | int n => n.toFloat
  | float x => x

def ofBool (b : Bool) : Value :=
  int (if b then 1 else 0)

def render : Value → String
  | int n => toString n.toInt
  | float x => Number.renderPositional x

/-- A letter that may follow an integer without changing it. -/
def isSuffix (c : Char) : Bool :=
  c == 'u' || c == 'U' || c == 'l' || c == 'L'

/-- Read a literal: an integer with optional suffixes, or else a decimal number with an optional `f`. -/
def read? (cs : List Char) : Option Value :=
  match Text.trimEndWhile isSuffix cs with
  | '0' :: 'x' :: digits | '0' :: 'X' :: digits => (Number.readInt64? 16 digits).map int
  | digits =>
    match Number.readInt64? 10 digits with
    | some n => some (int n)
    | none =>
      (Number.Decimal.read? (Text.trimEndWhile (fun c => c == 'f' || c == 'F') cs)).map fun value =>
        float value.toFloat

end Value

inductive Error where
  | stringLiteral
  | unexpectedChar (c : Char)
  | invalidNumber (text : String)
  | empty
  | unexpected (token : String)
  | unexpectedEnd
  | expectedClose (token : String)
  | unclosed
  | missingColon
  | missingName
  | unclosedCall (name : String)
  | wrongArity (name : String)
  | complementOfFloat
  | divisionByZero
  | integersOnly (operator : String)
  | tooDeep
  deriving Repr, DecidableEq

def Error.message : Error → String
  | stringLiteral => "string literals are not allowed in conditions"
  | unexpectedChar c => s!"unexpected character '{c}' in condition"
  | invalidNumber text => s!"invalid number '{text}'"
  | empty => "empty condition"
  | unexpected token => s!"unexpected '{token}' in condition"
  | unexpectedEnd => "unexpected end of condition"
  | expectedClose token => s!"expected ')' but found '{token}'"
  | unclosed => "expected ')' before end of condition"
  | missingColon => "expected ':' in conditional expression"
  | missingName => "'defined' requires a macro name"
  | unclosedCall name => s!"unterminated call to '{name}'"
  | wrongArity name => s!"wrong number of arguments to macro '{name}'"
  | complementOfFloat => "'~' requires an integer operand"
  | divisionByZero => "division by zero in condition"
  | integersOnly operator => s!"operator '{operator}' requires integer operands"
  | tooDeep => "macro expansion too deep in condition"

inductive Operator where
  | or | and | bitOr | bitXor | bitAnd | eq | ne | lt | gt | le | ge | shl | shr
  | add | sub | mul | div | rem
  deriving Repr, DecidableEq

namespace Operator

def text : Operator → String
  | or => "||"
  | and => "&&"
  | bitOr => "|"
  | bitXor => "^"
  | bitAnd => "&"
  | eq => "=="
  | ne => "!="
  | lt => "<"
  | gt => ">"
  | le => "<="
  | ge => ">="
  | shl => "<<"
  | shr => ">>"
  | add => "+"
  | sub => "-"
  | mul => "*"
  | div => "/"
  | rem => "%"

/-- How strongly an operator binds its left operand; the right one is bound by one more, so that equal
strengths group to the left. -/
def strength : Operator → Nat
  | or => 3
  | and => 5
  | bitOr => 7
  | bitXor => 9
  | bitAnd => 11
  | eq | ne => 13
  | lt | gt | le | ge => 15
  | shl | shr => 17
  | add | sub => 19
  | mul | div | rem => 21

/-- The operation on integers. Both logical operators take any operands here; evaluation decides them
before. -/
def onInts (op : Operator) (a b : Int64) : Except Error Value :=
  match op with
  | or => .ok (.ofBool (a != 0 || b != 0))
  | and => .ok (.ofBool (a != 0 && b != 0))
  | bitOr => .ok (.int (a ||| b))
  | bitXor => .ok (.int (a ^^^ b))
  | bitAnd => .ok (.int (a &&& b))
  | eq => .ok (.ofBool (a == b))
  | ne => .ok (.ofBool (a != b))
  | lt => .ok (.ofBool (a < b))
  | gt => .ok (.ofBool (b < a))
  | le => .ok (.ofBool (a ≤ b))
  | ge => .ok (.ofBool (b ≤ a))
  | shl => .ok (.int (a <<< b))
  | shr => .ok (.int (a >>> b))
  | add => .ok (.int (a + b))
  | sub => .ok (.int (a - b))
  | mul => .ok (.int (a * b))
  | div => if b == 0 then .error .divisionByZero else .ok (.int (a / b))
  | rem => if b == 0 then .error .divisionByZero else .ok (.int (a % b))

/-- The operation on doubles; bits and shifts need integers. -/
def onFloats (op : Operator) (a b : Float) : Except Error Value :=
  match op with
  | or => .ok (.ofBool (a != 0 || b != 0))
  | and => .ok (.ofBool (a != 0 && b != 0))
  | bitOr | bitXor | bitAnd | shl | shr => .error (.integersOnly op.text)
  | eq => .ok (.ofBool (a == b))
  | ne => .ok (.ofBool (a != b))
  | lt => .ok (.ofBool (a < b))
  | gt => .ok (.ofBool (b < a))
  | le => .ok (.ofBool (a ≤ b))
  | ge => .ok (.ofBool (b ≤ a))
  | add => .ok (.float (a + b))
  | sub => .ok (.float (a - b))
  | mul => .ok (.float (a * b))
  | div => if b == 0 then .error .divisionByZero else .ok (.float (a / b))
  | rem => if b == 0 then .error .divisionByZero else .ok (.float (Number.remainder a b))

def apply (op : Operator) : (left right : Value) → Except Error Value
  | .int a, .int b => op.onInts a b
  | left, right => op.onFloats left.toFloat right.toFloat

end Operator

inductive Sign where
  | not | complement | minus | plus
  deriving Repr, DecidableEq

def Sign.apply : Sign → Value → Except Error Value
  | not, value => .ok (.ofBool !value.truthy)
  | complement, .int n => .ok (.int (~~~n))
  | complement, .float _ => .error .complementOfFloat
  | minus, .int n => .ok (.int (-n))
  | minus, .float x => .ok (.float (-x))
  | plus, value => .ok value

end ScriptLint.Condition
