import ScriptLint.Macro.Value
import ScriptLint.Path
import ScriptLint.Text.Span

/-!
# Definitions

A definition stands for its body alone, or for its body with arguments put in. This module reads the text
that follows `#define`.
-/

namespace ScriptLint

namespace Macro

inductive Definition where
  | object (body : String)
  | function (params : List String) (variadic : Bool) (body : String)
  deriving Repr, DecidableEq

namespace Definition

def body : Definition → String
  | object body => body
  | function _ _ body => body

def isFunction : Definition → Bool
  | object _ => false
  | function .. => true

def value? : Definition → Option Value
  | object body => Value.parse? body
  | function .. => none

/-- Whether a call may have this many arguments. -/
def acceptsArity (definition : Definition) (count : Nat) : Bool :=
  match definition with
  | object _ => true
  | function params variadic _ => if variadic then params.length ≤ count else count == params.length

end Definition

inductive DefineError where
  | missingName
  | reservedName
  | unclosedParams (name : String)
  | restNotLast (name : String)
  | malformedParam (param name : String)
  | duplicateParam (param name : String)
  deriving Repr, DecidableEq

def DefineError.message : DefineError → String
  | missingName => "macro name missing in #define"
  | reservedName => "'defined' cannot be used as a macro name"
  | unclosedParams name => s!"unterminated parameter list for macro '{name}'"
  | restNotLast name => s!"'...' must be the last parameter of macro '{name}'"
  | malformedParam param name => s!"malformed parameter '{param}' in macro '{name}'"
  | duplicateParam param name => s!"duplicate parameter '{param}' in macro '{name}'"

/-- A name, where it stands in the text, and what it is defined as. -/
structure Defined where
  name : String
  offset : Nat
  definition : Definition
  deriving Repr, DecidableEq

/-- Read the pieces of a parameter list after those already read. -/
def readParams (name : String) (params : List String) (variadic : Bool) :
    List (List Char) → Except DefineError (List String × Bool)
  | [] => .ok (params, variadic)
  | piece :: pieces =>
    let param := String.ofList (Text.trim piece)
    if variadic then .error (.restNotLast name)
    else if param == "..." then readParams name params true pieces
    else if !Text.isIdent param.toList then .error (.malformedParam param name)
    else if params.contains param then .error (.duplicateParam param name)
    else readParams name (params ++ [param]) false pieces

def paramList (name : String) (inner : List Char) : Except DefineError (List String × Bool) :=
  let inner := Text.trim inner
  if inner.isEmpty then .ok ([], false)
  else readParams name [] false (Text.splitAtChars (· == ',') inner)

def readDefinition (name : String) : List Char → Except DefineError Definition
  | '(' :: rest =>
    match rest.dropWhile (· != ')') with
    | [] => .error (.unclosedParams name)
    | _ :: body =>
      (paramList name (rest.takeWhile (· != ')'))).map fun (params, variadic) =>
        .function params variadic (String.ofList (Text.trim body))
  | rest => .ok (.object (String.ofList (Text.trim rest)))

def parseDefine (text : List Char) : Except DefineError Defined :=
  let blanks := text.takeWhile Text.isLineBlank
  match Text.scanIdent (text.drop blanks.length) with
  | ([], _) => .error .missingName
  | (word, rest) =>
    let name := String.ofList word
    if name == "defined" then .error .reservedName
    else (readDefinition name rest).map fun definition => ⟨name, blanks.length, definition⟩

end Macro

/-- A named definition and where it was made. -/
structure Macro where
  name : String
  definition : Macro.Definition
  /-- The name in the defining file; empty for a name that is defined beforehand. -/
  span : Span
  /-- The defining file, when it is not the document itself. -/
  file : Option Path
  deriving Repr, DecidableEq

end ScriptLint
