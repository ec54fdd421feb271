import ScriptLint.Text.Chars
import ScriptLint.Text.Span

/-!
# Diagnostics

The fixed taxonomy of findings, how severe each one is, and the order in which a report lists them.
-/

namespace ScriptLint

inductive Severity where
  | error | warning | hint
  deriving Repr, DecidableEq

def Severity.name : Severity → String
  | error => "error"
  | warning => "warning"
  | hint => "hint"

/-- What a diagnostic is about. The order of the constructors is the order of reports. -/
inductive Code where
  | malformed
  | unknownIdentifier
  | unknownConstant
  | wrongArity
  | wrongType
  | eventOutsideState
  | unknownEvent
  | unknownState
  | missingReturn
  | returnInVoid
  | returnWrongType
  | deadCode
  | unusedVar
  | unusedLocal
  | unusedParam
  | underscoreParamUsed
  | suspiciousAssignment
  | reservedIdentifier
  | duplicateDecl
  | invalidAssignTarget
  | duplicateMacro
  | missingInclude
  | circularInclude
  | unmatchedConditional
  | strayDirective
  | errorDirective
  | warningDirective
  deriving Repr, DecidableEq

namespace Code

def all : List Code :=
  [malformed, unknownIdentifier, unknownConstant, wrongArity, wrongType, eventOutsideState,
    unknownEvent, unknownState, missingReturn, returnInVoid, returnWrongType, deadCode, unusedVar,
    unusedLocal, unusedParam, underscoreParamUsed, suspiciousAssignment, reservedIdentifier,
    duplicateDecl, invalidAssignTarget, duplicateMacro, missingInclude, circularInclude,
    unmatchedConditional, strayDirective, errorDirective, warningDirective]

def text : Code → String
  | malformed => "LSL000"
  | unknownIdentifier => "LSL001"
  | unknownConstant => "LSL002"
  | wrongArity => "LSL010"
  | wrongType => "LSL011"
  | eventOutsideState => "LSL020"
  | unknownEvent => "LSL021"
  | unknownState => "LSL022"
  | missingReturn => "LSL030"
  | returnInVoid => "LSL031"
  | returnWrongType => "LSL032"
  | deadCode => "LSL040"
  | unusedVar => "LSL050"
  | unusedLocal => "LSL051"
  | unusedParam => "LSL052"
  | underscoreParamUsed => "LSL053"
  | suspiciousAssignment => "LSL060"
  | reservedIdentifier => "LSL070"
  | duplicateDecl => "LSL071"
  | invalidAssignTarget => "LSL080"
  | duplicateMacro => "LSL100"
  | missingInclude => "LSL101"
  | circularInclude => "LSL102"
  | unmatchedConditional => "LSL103"
  | strayDirective => "LSL104"
  | errorDirective => "LSL105"
  | warningDirective => "LSL106"

def name : Code → String
  | malformed => "syntax"
  | unknownIdentifier => "unknown-identifier"
  | unknownConstant => "unknown-constant"
  | wrongArity => "wrong-arity"
  | wrongType => "wrong-type"
  | eventOutsideState => "event-outside-state"
  | unknownEvent => "unknown-event"
  | unknownState => "unknown-state"
  | missingReturn => "missing-return"
  | returnInVoid => "return-in-void"
  | returnWrongType => "return-wrong-type"
  | deadCode => "dead-code"
  | unusedVar => "unused-var"
  | unusedLocal => "unused-local"
  | unusedParam => "unused-param"
  | underscoreParamUsed => "underscore-param-used"
  | suspiciousAssignment => "suspicious-assignment"
  | reservedIdentifier => "reserved-identifier"
  | duplicateDecl => "duplicate-decl"
  | invalidAssignTarget => "invalid-assign-lhs"
  | duplicateMacro => "duplicate-macro"
  | missingInclude => "missing-include"
  | circularInclude => "circular-include"
  | unmatchedConditional => "unmatched-conditional"
  | strayDirective => "stray-directive"
  | errorDirective => "preprocessor-error"
  | warningDirective => "preprocessor-warning"

def severity : Code → Severity
  | deadCode | underscoreParamUsed | suspiciousAssignment | duplicateMacro | warningDirective =>
    .warning
  | unusedVar | unusedLocal | unusedParam => .hint
  | _ => .error

/-- Place in the taxonomy. -/
def rank (code : Code) : Nat := code.ctorIdx

/-- A word that names no diagnostic code. -/
structure Unknown where
  word : String
  deriving Repr, DecidableEq

def Unknown.message (unknown : Unknown) : String :=
  s!"unknown diagnostic code '{unknown.word}'"

/-- Read a code by its identifier or its name; surrounding white space and the case of letters do
not matter. -/
def parse (word : String) : Except Unknown Code :=
  let word := Text.trimString word
  let folded := Text.lowerString word
  match all.find? fun code => Text.lowerString code.text == folded || code.name == folded with
  | some code => .ok code
  | none => .error ⟨word⟩

end Code

/-- The stage that found something. -/
inductive Origin where
  | preprocessor | lexer | analyzer
  deriving Repr, DecidableEq

def Origin.name : Origin → String
  | preprocessor => "preprocessor"
  | lexer => "lexer"
  | analyzer => "analyzer"

/-- One finding about a document. -/
structure Diagnostic where
  code : Code
  message : String
  span : Span
  origin : Origin
  deriving Repr, DecidableEq

namespace Diagnostic

def severity (diagnostic : Diagnostic) : Severity := diagnostic.code.severity

def isError (diagnostic : Diagnostic) : Bool := diagnostic.severity == .error

def render (diagnostic : Diagnostic) : String :=
  s!"{diagnostic.severity.name}[{diagnostic.code.text}]: {diagnostic.message} at {diagnostic.span.render}"

/-- Order of reports: start, end, place in the taxonomy, message. -/
def notAfter (first second : Diagnostic) : Bool :=
  if first.span.start ≠ second.span.start then first.span.start < second.span.start
  else if first.span.stop ≠ second.span.stop then first.span.stop < second.span.stop
  else if first.code.rank ≠ second.code.rank then first.code.rank < second.code.rank
  else first.message ≤ second.message

/-- Put diagnostics into report order; equal ones keep their places. -/
def sort (diagnostics : List Diagnostic) : List Diagnostic :=
  diagnostics.mergeSort notAfter

end Diagnostic

end ScriptLint
