import ScriptLint.Condition.Value

/-!
# Tokens of conditions

Numbers, names, operators and parentheses, each with its place counted in characters.
-/

namespace ScriptLint.Condition

/-- The operator signs. Plus and minus also have one operand. -/
inductive Symbol where
  | binary (op : Operator)
  | bang | tilde | question | colon | hash
  deriving Repr, DecidableEq

namespace Symbol

def text : Symbol → String
  | binary op => op.text
  | bang => "!"
  | tilde => "~"
  | question => "?"
  | colon => ":"
  | hash => "#"

def all : List Symbol :=
  [binary .shl, binary .shr, binary .le, binary .ge, binary .eq, binary .ne, binary .and, binary .or,
    binary .add, binary .sub, binary .mul, binary .div, binary .rem, binary .lt, binary .gt, bang, tilde,
    binary .bitAnd, binary .bitOr, binary .bitXor, question, colon, hash]

def atFront? (cs : List Char) : Option Symbol :=
  all.find? fun symbol => (Text.dropBeginning? symbol.text.toList cs).isSome

/-- The operator that a sign is in front of an operand. -/
def sign? : Symbol → Option Sign
  | bang => some .not
  | tilde => some .complement
  | binary .sub => some .minus
  | binary .add => some .plus
  | _ => none

end Symbol

inductive Kind where
  | num (value : Value)
  | ident (name : String)
  | symbol (sign : Symbol)
  | opening
  | closing
  | comma
  deriving Repr

def Kind.render : Kind → String
  | num value => value.render
  | ident name => name
  | symbol sign => sign.text
  | opening => "("
  | closing => ")"
  | comma => ","

structure Token where
  kind : Kind
  start : Nat
  stop : Nat
  deriving Repr

/-- A character of a number, its first one apart. -/
def isNumberPart (c : Char) : Bool :=
  Text.isLetter c || Text.isDigit c || c == '.'

/-- Length of a number: letters, digits and points, and a sign right after an `e`. -/
def numberLength (hex : Bool) : List Char → Nat
  | [] => 0
  | [c] => if isNumberPart c then 1 else 0
  | c :: sign :: cs =>
    if !hex && (c == 'e' || c == 'E') && (sign == '+' || sign == '-') then numberLength hex cs + 2
    else if isNumberPart c then numberLength hex (sign :: cs) + 1
    else 0

/-- The token at the front of `c :: cs`, which is no blank, and how many characters follow its first. -/
def Kind.read (c : Char) (cs : List Char) : Except Error (Kind × Nat) :=
  if Text.isDigit c || (c == '.' && cs.head?.any Text.isDigit) then
    let length := numberLength (c == '0' && cs.head? == some 'x') (c :: cs)
    let text := (c :: cs).take length
    match Value.read? text with
    | some value => .ok (num value, length - 1)
    | none => .error (.invalidNumber (String.ofList text))
  else if Text.isIdentStart c then
    let part := cs.takeWhile Text.isIdentPart
    .ok (ident (String.ofList (c :: part)), part.length)
  else if c == '(' then .ok (opening, 0)
  else if c == ')' then .ok (closing, 0)
  else if c == ',' then .ok (comma, 0)
  else if c == '"' || c == '\'' then .error .stringLiteral
  else
    match Symbol.atFront? (c :: cs) with
    | some sign => .ok (symbol sign, sign.text.length - 1)
    | none => .error (.unexpectedChar c)

def tokensFrom (start : Nat) : List Char → Except Error (List Token)
  | [] => .ok []
  | c :: cs =>
    if Text.isWordBlank c then tokensFrom (start + 1) cs
    else do
      let (kind, tail) ← Kind.read c cs
      let rest ← tokensFrom (start + tail + 1) (cs.drop tail)
      return ⟨kind, start, start + tail + 1⟩ :: rest
termination_by cs => cs.length
decreasing_by
  · simp
  · simp only [List.length_drop, List.length_cons]; omega

end ScriptLint.Condition
