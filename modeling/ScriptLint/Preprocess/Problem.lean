import ScriptLint.Condition.Value
import ScriptLint.Diagnostic
import ScriptLint.FileSystem
import ScriptLint.Macro.Definition

/-!
# What preprocessing finds wrong

Every finding with its code and its wording.
-/

namespace ScriptLint.Preprocess

inductive Problem where
  /-- The condition after `word` is not valid. -/
  | invalidCondition (word : String) (error : Condition.Error)
  | missingName (word : String)
  | strayElseIf
  | strayElse
  | strayEndIf
  | elseIfAfterElse
  | repeatedElse
  | unclosedGroup
  | invalidDefine (error : Macro.DefineError)
  | alreadyDefined (name : String)
  | malformedInclude
  | includeNotFound (target : String)
  | includeUnreadable (target : String) (error : FileSystem.ReadError)
  | includeCycle (target : String)
  | errorMessage (text : String)
  | warningMessage (text : String)
  | unknownDirective (name : String)
  deriving Repr, DecidableEq

namespace Problem

def code : Problem → Code
  | invalidCondition .. | missingName _ | elseIfAfterElse | repeatedElse | invalidDefine _
  | malformedInclude | unknownDirective _ => .malformed
  | strayElseIf | strayElse | strayEndIf => .strayDirective
  | unclosedGroup => .unmatchedConditional
  | alreadyDefined _ => .duplicateMacro
  | includeNotFound _ | includeUnreadable .. => .missingInclude
  | includeCycle _ => .circularInclude
  | errorMessage _ => .errorDirective
  | warningMessage _ => .warningDirective

/-- A keyword and the text that follows it, if there is any. -/
def withText (word text : String) : String :=
  if text.isEmpty then word else s!"{word} {text}"

def message : Problem → String
  | invalidCondition word error => s!"invalid {word} condition: {error.message}"
  | missingName word => s!"{word} requires a macro name"
  | strayElseIf => "#elif without matching #if"
  | strayElse => "#else without matching #if"
  | strayEndIf => "#endif without matching #if"
  | elseIfAfterElse => "#elif after #else"
  | repeatedElse => "duplicate #else in conditional block"
  | unclosedGroup => "conditional block is never closed with #endif"
  | invalidDefine error => error.message
  | alreadyDefined name => s!"macro '{name}' is already defined"
  | malformedInclude => "#include expects \"file\" or <file>"
  | includeNotFound target => s!"cannot find include file '{target}'"
  | includeUnreadable target error => s!"cannot read include file '{target}': {error.message}"
  | includeCycle target => s!"'{target}' is already being included"
  | errorMessage text => withText "#error" text
  | warningMessage text => withText "#warning" text
  | unknownDirective name => s!"unknown preprocessor directive '#{name}'"

end Problem

end ScriptLint.Preprocess
