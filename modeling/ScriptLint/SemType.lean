/-!
# Value types of scripts

The closed set of types a script's values can have, what may be stored where, and the result types
of operators and member accesses. `any` stands for a type that is not known and fits everywhere.
-/

namespace ScriptLint

/-- The type of a value, or of what a callable returns. -/
inductive SemType where
  | integer | float | string | key | vector | rotation | list | void | any
  deriving Repr, DecidableEq, Inhabited

/-- Operators between two values, assignment apart. -/
inductive BinaryOp where
  | add | sub | mul | div | mod
  | lt | gt | le | ge | eq | ne
  | and | or | bitAnd | bitOr | bitXor | shiftLeft | shiftRight
  deriving Repr, DecidableEq

namespace BinaryOp

def symbol : BinaryOp → String
  | add => "+"
  | sub => "-"
  | mul => "*"
  | div => "/"
  | mod => "%"
  | lt => "<"
  | gt => ">"
  | le => "<="
  | ge => ">="
  | eq => "=="
  | ne => "!="
  | and => "&&"
  | or => "||"
  | bitAnd => "&"
  | bitOr => "|"
  | bitXor => "^"
  | shiftLeft => "<<"
  | shiftRight => ">>"

def all : List BinaryOp :=
  [add, sub, mul, div, mod, lt, gt, le, ge, eq, ne, and, or, bitAnd, bitOr, bitXor, shiftLeft,
    shiftRight]

def ofSymbol? (symbol : String) : Option BinaryOp :=
  all.find? (·.symbol == symbol)

end BinaryOp

/-- Operators on one value. -/
inductive UnaryOp where
  | neg | not | bitNot | increment | decrement
  deriving Repr, DecidableEq

namespace UnaryOp

def symbol : UnaryOp → String
  | neg => "-"
  | not => "!"
  | bitNot => "~"
  | increment => "++"
  | decrement => "--"

def all : List UnaryOp := [neg, not, bitNot, increment, decrement]

def ofSymbol? (symbol : String) : Option UnaryOp :=
  all.find? (·.symbol == symbol)

/-- The operators that store a new value into their operand. -/
def isStep : UnaryOp → Bool
  | increment | decrement => true
  | _ => false

end UnaryOp

/-- Why a member cannot be read from a value. -/
inductive MemberError where
  /-- The fourth component exists on rotations only. -/
  | rotationOnly
  | unknown (member : String) (base : SemType)
  /-- Values of this type have no members. -/
  | noMembers (member : String) (base : SemType)
  deriving Repr, DecidableEq

namespace SemType

def all : List SemType := [integer, float, string, key, vector, rotation, list, void, any]

def name : SemType → String
  | integer => "integer"
  | float => "float"
  | string => "string"
  | key => "key"
  | vector => "vector"
  | rotation => "rotation"
  | list => "list"
  | void => "void"
  | any => "any"

/-- The type that a declaration keyword names; `void` is no keyword of the language. -/
def ofKeyword? : String → Option SemType
  | "integer" => some integer
  | "float" => some float
  | "string" => some string
  | "key" => some key
  | "vector" => some vector
  | "rotation" => some rotation
  | "quaternion" => some rotation
  | "list" => some list
  | _ => none

def ofName? : String → Option SemType
  | "void" => some void
  | "any" => some any
  | word => ofKeyword? word

def isNumeric : SemType → Bool
  | integer | float | any => true
  | _ => false

/-- Strings and keys convert into each other freely. -/
def isTextual : SemType → Bool
  | string | key => true
  | _ => false

/-- An integer, or a value of unknown type. -/
def isIntegral : SemType → Bool
  | integer | any => true
  | _ => false

/-- Whether a value of type `value` may be stored where `expected` is asked for. -/
def accepts (expected value : SemType) : Bool :=
  expected == any || value == any || expected == value ||
    match expected, value with
    | integer, float | float, integer | string, key | key, string => true
    | _, _ => false

/-- What arithmetic on two plain numbers gives. -/
def arithmetic? : SemType → SemType → Option SemType
  | integer, integer => some integer
  | integer, float | float, integer | float, float => some float
  | _, _ => none

/-- Result type of addition; adding anything to a list gives a list. -/
def addResult? : SemType → SemType → Option SemType
  | list, _ | _, list => some list
  | any, _ | _, any => some any
  | string, string | string, key | key, string | key, key => some string
  | vector, vector => some vector
  | rotation, rotation => some rotation
  | lhs, rhs => arithmetic? lhs rhs

def subResult? : SemType → SemType → Option SemType
  | any, _ | _, any => some any
  | vector, vector => some vector
  | rotation, rotation => some rotation
  | lhs, rhs => arithmetic? lhs rhs

/-- Result type of multiplication; two vectors give their dot product. -/
def mulResult? : SemType → SemType → Option SemType
  | any, _ | _, any => some any
  | vector, vector => some float
  | vector, integer | vector, float | integer, vector | float, vector => some vector
  | vector, rotation => some vector
  | rotation, rotation => some rotation
  | lhs, rhs => arithmetic? lhs rhs

def divResult? : SemType → SemType → Option SemType
  | any, _ | _, any => some any
  | vector, integer | vector, float | vector, rotation => some vector
  | rotation, rotation => some rotation
  | lhs, rhs => arithmetic? lhs rhs

/-- Result type of the remainder; two vectors give their cross product. -/
def modResult? : SemType → SemType → Option SemType
  | any, _ | _, any => some any
  | integer, integer => some integer
  | vector, vector => some vector
  | _, _ => none

/-- Whether two values may be tested for equality. -/
def comparable (lhs rhs : SemType) : Bool :=
  lhs == any || rhs == any || lhs == rhs || (lhs.isNumeric && rhs.isNumeric) ||
    (lhs.isTextual && rhs.isTextual)

/-- Result type of an operator between two values, if the combination is legal. -/
def binaryResult? (op : BinaryOp) (lhs rhs : SemType) : Option SemType :=
  if lhs == void || rhs == void then none
  else
    match op with
    | .add => addResult? lhs rhs
    | .sub => subResult? lhs rhs
    | .mul => mulResult? lhs rhs
    | .div => divResult? lhs rhs
    | .mod => modResult? lhs rhs
    | .lt | .gt | .le | .ge => if lhs.isNumeric && rhs.isNumeric then some integer else none
    | .eq | .ne => if comparable lhs rhs then some integer else none
    | .and | .or | .bitAnd | .bitOr | .bitXor | .shiftLeft | .shiftRight =>
      if lhs.isIntegral && rhs.isIntegral then some integer else none

/-- Result type of an operator on one value, if the combination is legal. -/
def unaryResult? (op : UnaryOp) : SemType → Option SemType
  | any => some any
  | operand =>
    match op, operand with
    | .neg, integer | .neg, float | .neg, vector | .neg, rotation => some operand
    | .not, integer | .bitNot, integer => some integer
    | .increment, integer | .increment, float => some operand
    | .decrement, integer | .decrement, float => some operand
    | _, _ => none

/-- `binaryResult?` for an operator given by its symbol. -/
def binarySymbolResult? (symbol : String) (lhs rhs : SemType) : Option SemType :=
  (BinaryOp.ofSymbol? symbol).bind (binaryResult? · lhs rhs)

/-- `unaryResult?` for an operator given by its symbol; whatever it is, an unknown operand stays
unknown. -/
def unarySymbolResult? (symbol : String) (operand : SemType) : Option SemType :=
  match UnaryOp.ofSymbol? symbol with
  | some op => unaryResult? op operand
  | none => if operand == any then some any else none

def memberResult (base : SemType) (member : String) : Except MemberError SemType :=
  match base with
  | any => .ok any
  | vector =>
    if member == "x" || member == "y" || member == "z" then .ok float
    else if member == "s" then .error .rotationOnly
    else .error (.unknown member base)
  | rotation =>
    if member == "x" || member == "y" || member == "z" || member == "s" then .ok float
    else .error (.unknown member base)
  | _ => .error (.noMembers member base)

end SemType

def MemberError.message : MemberError → String
  | rotationOnly => "member '.s' is only valid on rotation"
  | unknown member base => s!"unknown member '.{member}' on {base.name}"
  | noMembers member base => s!"member access '.{member}' is not valid on {base.name}"

end ScriptLint
