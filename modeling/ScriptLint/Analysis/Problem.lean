import ScriptLint.Diagnostic
import ScriptLint.Scope

/-!
# What the analysis finds wrong

Every finding with its code and its wording.
-/

namespace ScriptLint.Analysis

/-- What a reserved word was to name. -/
inductive Role where
  | declaration | state | function | label
  deriving Repr, DecidableEq

def Role.phrase : Role → String
  | declaration => "be declared"
  | state => "name a state"
  | function => "name a function"
  | label => "name a label"

/-- A declaration kind in a sentence. -/
def phrase : Option DeclKind → String
  | some .var => "a variable"
  | some .param => "a parameter"
  | some .func => "a function"
  | some .state => "a state"
  | some .event => "an event handler"
  | some .label => "a label"
  | none => "something else"

inductive Problem where
  /-- A sign is missing; `found` stands in its place, or nothing does. -/
  | expected (sign context : String) (found : Option String)
  | unexpectedTopLevel (text : String)
  | expectedStateName
  | expectedName (word : String)
  | expectedDeclaration (text : String)
  | expectedHandler (state text : String)
  | expectedParamType (text : String)
  | expectedParamName
  | expectedExpression (found : Option String)
  | expectedMember
  | expectedComponent
  | expectedWhile
  | expectedLabel
  | expectedLabelName
  | componentCount (count : Nat)
  | stateNotClosed (name : String)
  | blockNotClosed
  | typedHandler (name : String)
  | strayElse
  | declarationNotAllowed
  | keywordInExpression (word : String)
  | reserved (name : String) (role : Role)
  | declaredInScope (name : String) (kind : Option DeclKind)
  | declaredGlobally (name : String) (kind : Option DeclKind)
  | duplicateState (name : String)
  | duplicateHandler (name : String)
  | duplicateLabel (name : String)
  | unknownIdentifier (name : String)
  | unknownConstant (name : String)
  | unknownFunction (name : String)
  | unknownLabel (name : String)
  | unknownState (name : String)
  | unknownEvent (name : String)
  | notAValue (name : String) (kind : Option DeclKind)
  | arity (name expected : String) (found : Nat)
  | macroArity (name expected : String) (found : Nat)
  | printArity (found : Nat)
  | eventArity (name : String) (expected found : Nat)
  | argument (index : Nat) (callee param : String) (expected found : SemType)
  | eventParam (index : Nat) (event : String) (expected found : SemType)
  | initializer (type : SemType) (name : String) (found : SemType)
  | voidCondition
  | unaryOperand (op : String) (operand : SemType)
  | operands (op : String) (left right : SemType)
  | member (error : MemberError)
  | voidCast (target : SemType)
  | componentType (found : SemType)
  | nestedList
  | voidElement
  | assigned (value target : SemType)
  | stepTarget (op : String)
  | assignTarget
  | handlerOutsideState (name : String)
  | missingReturn (name : String) (type : SemType)
  | returnInVoid (isEvent : Bool) (name : String)
  | returnWithoutValue (name : String) (type : SemType)
  | returnType (name : String) (expected found : SemType)
  | deadCode
  | assignedCondition (what : String)
  | unusedVar (name : String)
  | unusedLocal (name : String)
  | unusedParam (name : String)
  | underscoreUsed (name : String)
  deriving Repr, DecidableEq

namespace Problem

def code : Problem → Code
  | expected .. | unexpectedTopLevel _ | expectedStateName | expectedName _ | expectedDeclaration _
  | expectedHandler .. | expectedParamType _ | expectedParamName | expectedExpression _ | expectedMember
  | expectedComponent | expectedWhile | expectedLabel | expectedLabelName | componentCount _
  | stateNotClosed _ | blockNotClosed | typedHandler _ | strayElse | declarationNotAllowed
  | keywordInExpression _ => .malformed
  | reserved .. => .reservedIdentifier
  | declaredInScope .. | declaredGlobally .. | duplicateState _ | duplicateHandler _
  | duplicateLabel _ => .duplicateDecl
  | unknownIdentifier _ | unknownFunction _ | unknownLabel _ => .unknownIdentifier
  | unknownConstant _ => .unknownConstant
  | unknownState _ => .unknownState
  | unknownEvent _ => .unknownEvent
  | arity .. | macroArity .. | printArity _ | eventArity .. => .wrongArity
  | notAValue .. | argument .. | eventParam .. | initializer .. | voidCondition | unaryOperand ..
  | operands .. | member _ | voidCast _ | componentType _ | nestedList | voidElement
  | assigned .. => .wrongType
  | stepTarget _ | assignTarget => .invalidAssignTarget
  | handlerOutsideState _ => .eventOutsideState
  | missingReturn .. => .missingReturn
  | returnInVoid .. => .returnInVoid
  | returnWithoutValue .. | returnType .. => .returnWrongType
  | deadCode => .deadCode
  | assignedCondition _ => .suspiciousAssignment
  | unusedVar _ => .unusedVar
  | unusedLocal _ => .unusedLocal
  | unusedParam _ => .unusedParam
  | underscoreUsed _ => .underscoreParamUsed

/-- A piece of the document in quotes, or its end. -/
def found : Option String → String
  | some text => s!"'{text}'"
  | none => "end of file"

def message : Problem → String
  | expected sign context text => s!"expected '{sign}' {context}, found {found text}"
  | unexpectedTopLevel text => s!"unexpected '{text}' at top level"
  | expectedStateName => "expected a state name after 'state'"
  | expectedName word => s!"expected a name after '{word}'"
  | expectedDeclaration text => s!"expected a declaration, found '{text}'"
  | expectedHandler state text => s!"expected an event handler in state '{state}', found '{text}'"
  | expectedParamType text => s!"expected a parameter type, found '{text}'"
  | expectedParamName => "expected a parameter name"
  | expectedExpression text => s!"expected an expression, found {found text}"
  | expectedMember => "expected a member name after '.'"
  | expectedComponent => "expected ',' or '>' in a vector or rotation literal"
  | expectedWhile => "expected 'while' after the body of 'do'"
  | expectedLabel => "expected a label after 'jump'"
  | expectedLabelName => "expected a label name after '@'"
  | componentCount count => s!"expected 3 (vector) or 4 (rotation) components, found {count}"
  | stateNotClosed name => s!"state '{name}' is not closed"
  | blockNotClosed => "block is not closed"
  | typedHandler name => s!"event handler '{name}' cannot declare a return type"
  | strayElse => "'else' without a matching 'if'"
  | declarationNotAllowed => "a declaration is not allowed here; wrap it in braces"
  | keywordInExpression word => s!"'{word}' cannot be used in an expression"
  | reserved name role => s!"'{name}' is reserved and cannot {role.phrase}"
  | declaredInScope name kind => s!"'{name}' is already declared in this scope as {phrase kind}"
  | declaredGlobally name kind => s!"'{name}' is already declared as {phrase kind}"
  | duplicateState name => s!"state '{name}' is already declared"
  | duplicateHandler name => s!"event '{name}' is already handled in this state"
  | duplicateLabel name => s!"label '{name}' is already declared in this function"
  | unknownIdentifier name => s!"unknown identifier '{name}'"
  | unknownConstant name => s!"unknown constant '{name}'"
  | unknownFunction name => s!"unknown function '{name}'"
  | unknownLabel name => s!"unknown label '{name}'"
  | unknownState name => s!"unknown state '{name}'"
  | unknownEvent name => s!"'{name}' is not a known event"
  | notAValue name kind => s!"'{name}' is {phrase kind} and cannot be used as a value"
  | arity name wanted count => s!"'{name}' expects {wanted} argument(s), found {count}"
  | macroArity name wanted count => s!"macro '{name}' expects {wanted} argument(s), found {count}"
  | printArity count => s!"'print' expects 1 argument, found {count}"
  | eventArity name wanted count => s!"event '{name}' takes {wanted} parameter(s), found {count}"
  | argument index callee param wanted type =>
    s!"argument {index} of '{callee}' ({param}) expects {wanted.name}, found {type.name}"
  | eventParam index event wanted type =>
    s!"parameter {index} of event '{event}' must be {wanted.name}, found {type.name}"
  | initializer type name value => s!"cannot initialize {type.name} '{name}' with a {value.name} value"
  | voidCondition => "a void value cannot be used as a condition"
  | unaryOperand op operand => s!"operator '{op}' cannot be applied to {operand.name}"
  | operands op left right => s!"operator '{op}' cannot be applied to {left.name} and {right.name}"
  | member error => error.message
  | voidCast target => s!"cannot cast a void value to {target.name}"
  | componentType type => s!"vector and rotation components must be numeric, found {type.name}"
  | nestedList => "lists cannot contain other lists"
  | voidElement => "a void value cannot be a list element"
  | assigned value target => s!"cannot assign a {value.name} value to a {target.name} variable"
  | stepTarget op => s!"operator '{op}' needs a variable"
  | assignTarget => "the left side of an assignment must be a variable or one of its members"
  | handlerOutsideState name => s!"event handler '{name}' must be inside a state"
  | missingReturn name type => s!"function '{name}' does not return a {type.name} on every path"
  | returnInVoid true name => s!"event handler '{name}' does not return a value"
  | returnInVoid false name => s!"function '{name}' does not return a value"
  | returnWithoutValue name type => s!"function '{name}' must return a {type.name}"
  | returnType name wanted type => s!"function '{name}' returns {wanted.name}, found {type.name}"
  | deadCode => "unreachable code after a terminating statement"
  | assignedCondition what => s!"assignment used as the '{what}' condition; did you mean '=='?"
  | unusedVar name => s!"global variable '{name}' is never used"
  | unusedLocal name => s!"local variable '{name}' is never used"
  | unusedParam name => s!"parameter '{name}' is never used"
  | underscoreUsed name => s!"'{name}' is marked unused with '_' but is referenced"

end Problem

/-- A problem and the piece of the document that it is about. -/
structure Finding where
  problem : Problem
  span : Span
  deriving Repr, DecidableEq

def Finding.diagnostic (finding : Finding) : Diagnostic :=
  ⟨finding.problem.code, finding.problem.message, finding.span, .analyzer⟩

end ScriptLint.Analysis
