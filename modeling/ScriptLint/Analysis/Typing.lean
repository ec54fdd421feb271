import ScriptLint.Analysis.State

/-!
# Typing rules

The type of an expression from the types of its parts, with what is wrong with it. Whatever is wrong has
any type, so that one mistake is reported once.
-/

namespace ScriptLint.Analysis

structure Judgement where
  typed : Typed
  finding : Option Finding := none
  deriving Repr, DecidableEq

namespace Judgement

def good (type : SemType) (span : Span) : Judgement := ⟨{ type, span }, none⟩

def bad (span : Span) (problem : Problem) (where_ : Span) : Judgement :=
  ⟨{ type := .any, span }, some ⟨problem, where_⟩⟩

end Judgement

/-- How strongly an assignment binds to its left and to its right: it groups to the right. -/
def assignStrength : Nat × Nat := (2, 1)

def frontStrength : Nat := 23

def behindStrength : Nat := 25

/-- What binds less than this ends a component of a vector, so that `>` is never read as a comparison. -/
def componentStrength : Nat := 19

/-- How strongly an operator binds to its left and to its right. -/
def strength? (op : String) : Option (Nat × Nat) :=
  match op with
  | "=" | "+=" | "-=" | "*=" | "/=" | "%=" => some assignStrength
  | "||" => some (3, 4)
  | "&&" => some (5, 6)
  | "|" => some (7, 8)
  | "^" => some (9, 10)
  | "&" => some (11, 12)
  | "==" | "!=" => some (13, 14)
  | "<" | ">" | "<=" | ">=" => some (15, 16)
  | "<<" | ">>" => some (17, 18)
  | "+" | "-" => some (19, 20)
  | "*" | "/" | "%" => some (21, 22)
  | _ => none

def isStepSign (text : String) : Bool := text == "++" || text == "--"

def isFrontSign (text : String) : Bool :=
  text == "-" || text == "!" || text == "~" || isStepSign text

/-- Whether a number is written with a point or an exponent. -/
def isFloatText (text : String) : Bool :=
  match text.toList with
  | '0' :: 'x' :: _ | '0' :: 'X' :: _ => false
  | cs => cs.any fun c => c == '.' || c == 'e' || c == 'E'

def numberType (text : String) : SemType :=
  if isFloatText text then .float else .integer

/-- A minus, a negation or a complement. -/
def unaryRule (op : Token) (operand : Typed) : Judgement :=
  let span := op.span.cover operand.span
  match SemType.unarySymbolResult? op.text operand.type with
  | some type => .good type span
  | none => .bad span (.unaryOperand op.text operand.type) op.span

/-- A step up or down, in front or behind, which needs a variable. -/
def stepRule (op : Token) (operand : Typed) (span : Span) : Judgement :=
  if !operand.place then .bad span (.stepTarget op.text) operand.span
  else
    match SemType.unarySymbolResult? op.text operand.type with
    | some type => .good type span
    | none => .bad span (.unaryOperand op.text operand.type) op.span

def binaryRule (left : Typed) (op : Token) (right : Typed) : Judgement :=
  let span := left.span.cover right.span
  match SemType.binarySymbolResult? op.text left.type right.type with
  | some type => .good type span
  | none => .bad span (.operands op.text left.type right.type) op.span

/-- The operator that an assignment applies before it stores. -/
def storedOp (op : String) : String :=
  String.ofList (Text.trimEndWhile (· == '=') op.toList)

/-- The type that an assignment stores. -/
def storedType? (left : Typed) (op : Token) (right : Typed) : Option SemType :=
  if op.text == "=" then some right.type
  else SemType.binarySymbolResult? (storedOp op.text) left.type right.type

def assignRule (left : Typed) (op : Token) (right : Typed) : Judgement :=
  let span := left.span.cover right.span
  let assign := if op.text == "=" then some op.span else none
  if !left.place then
    ⟨{ type := .any, span, assign }, some ⟨.assignTarget, left.span⟩⟩
  else
    let typed : Typed := { type := left.type, span, assign }
    match storedType? left op right with
    | some type =>
      if left.type.accepts type then ⟨typed, none⟩
      else ⟨typed, some ⟨.assigned type left.type, right.span⟩⟩
    | none => ⟨typed, some ⟨.operands op.text left.type right.type, op.span⟩⟩

/-- A member of a value; a member of a variable can be assigned to. -/
def memberRule (base : Typed) (name : Token) : Judgement :=
  let span := base.span.cover name.span
  match base.type.memberResult name.text with
  | .ok type => ⟨{ type, span, place := base.place }, none⟩
  | .error error => ⟨{ type := .any, span, place := base.place }, some ⟨.member error, name.span⟩⟩

/-- A conversion to a type; only nothing cannot be converted. -/
def castRule (opening : Span) (target : SemType) (operand : Typed) : Judgement :=
  ⟨{ type := target, span := opening.cover operand.span },
    if operand.type == .void then some ⟨.voidCast target, operand.span⟩ else none⟩

/-- What cannot stand in a list. -/
def elementFinding (item : Typed) : Option Finding :=
  match item.type with
  | .list => some ⟨.nestedList, item.span⟩
  | .void => some ⟨.voidElement, item.span⟩
  | _ => none

/-- What cannot be a component of a vector. -/
def componentFinding (part : Typed) : Option Finding :=
  if part.type.isNumeric then none else some ⟨.componentType part.type, part.span⟩

/-- A vector has three components and a rotation four. -/
def vectorRule (span : Span) (count : Nat) : Judgement :=
  match count with
  | 3 => .good .vector span
  | 4 => .good .rotation span
  | count => .bad span (.componentCount count) span

def conditionFindings (what : String) (condition : Typed) : List Finding :=
  (condition.assign.map fun op => ⟨.assignedCondition what, op⟩).toList ++
    (if condition.type == .void then [⟨.voidCondition, condition.span⟩] else [])

end ScriptLint.Analysis
