import ScriptLint.Analysis.State
import ScriptLint.Macro.Expansion

/-!
# What names mean

A name in a value is looked for in the open scopes, then among the definitions, the constants and the variables
of included files. A callee is looked for among the document's functions, the built-in ones, those of included
files and the function-like definitions. The rules here only read the state; what they find is reported by
the scan.
-/

namespace ScriptLint.Analysis

/-- Names in capitals are expected to be constants. -/
def looksConstant (name : String) : Bool :=
  let upper (c : Char) : Bool := 'A' ≤ c && c ≤ 'Z'
  name.toList.any upper && name.toList.all fun c => upper c || Text.isDigit c || c == '_'

/-- The meaning of a name in a value: what it refers to, what is known of it, and what is wrong with it. -/
structure Meaning where
  target : Target
  typed : Typed
  finding : Option Finding := none
  deriving Repr, DecidableEq

/-- The meaning of a name that is declared. Only variables and parameters are values. -/
def meaningOfDecl (state : State) (name : String) (span : Span) (id : Nat) : Meaning :=
  let decl := state.decls[id]?
  let kind := (decl.map Decl.kind).getD .var
  if kind == .var || kind == .param then
    { target := .decl id
      typed := { type := (decl.map Decl.type).getD .any, span, place := true } }
  else
    { target := .decl id
      typed := { type := .any, span }
      finding := some ⟨.notAValue name (state.kindOf id), span⟩ }

def definitionType (definition : Macro.Definition) : SemType :=
  (definition.value?.map Macro.Value.semType).getD .any

def meaningOf (env : Env) (state : State) (name : String) (span : Span) : Meaning :=
  match state.arena.lookup name with
  | some id => meaningOfDecl state name span id
  | none =>
    match env.pre.macros.get? name with
    | some entry =>
      { target := .defined name, typed := { type := definitionType entry.definition, span } }
    | none =>
      match env.definitions.constants.get? name with
      | some constant => { target := .constant name, typed := { type := constant.type, span } }
      | none =>
        match env.pre.includedGlobal? name with
        | some found =>
          { target := .included found.file, typed := { type := found.type, span, place := true } }
        | none =>
          { target := .unresolved
            typed := { type := .any, span }
            finding := some ⟨if looksConstant name then .unknownConstant name else .unknownIdentifier name,
              span⟩ }

/-! ## Calls -/

structure Checked where
  target : Target
  returns : SemType
  finding : Option Finding := none
  deriving Repr, DecidableEq

/-- The first argument whose type a parameter refuses, counted from one. -/
def firstMismatch : (index : Nat) → List Param → List Typed → Option (Nat × Param × Typed)
  | index, param :: params, arg :: args =>
    if param.type.accepts arg.type then firstMismatch (index + 1) params args
    else some (index, param, arg)
  | _, _, _ => none

def checkArgs (span : Span) (callee : String) (params : List Param) (args : List Typed) : Option Finding :=
  if params.length ≠ args.length then
    some ⟨.arity callee (toString params.length) args.length, span⟩
  else
    (firstMismatch 1 params args).map fun (index, param, arg) =>
      ⟨.argument index callee param.name param.type arg.type, arg.span⟩

def fits (args : List Typed) (signature : Signature) : Bool :=
  signature.params.length == args.length &&
    (signature.params.zip args).all fun (param, arg) => param.type.accepts arg.type

/-- The numbers of parameters that some signatures have, each once and in order. -/
def arities (signatures : List Signature) : List Nat :=
  ((signatures.map fun signature => signature.params.length).mergeSort (· ≤ ·)).eraseDups

/-- Check a call of a function with several signatures. The first one that fits decides. Without one, the call
is judged by the first signature of the right length, or else by the main one. -/
def checkSignatures (span : Span) (callee : String) (signatures : List Signature) (args : List Typed) :
    Option Finding × SemType :=
  match signatures.find? (fits args) with
  | some signature => (none, signature.returns)
  | none =>
    match signatures.find? fun signature => signature.params.length == args.length with
    | some signature => (checkArgs span callee signature.params args, signature.returns)
    | none =>
      let wanted := " or ".intercalate ((arities signatures).map toString)
      (some ⟨.arity callee wanted args.length, span⟩, (signatures.head?.map Signature.returns).getD .any)

/-- How many arguments a definition asks for. -/
def wantedArity : Macro.Definition → String
  | .function params true _ => s!"at least {params.length}"
  | .function params false _ => toString params.length
  | .object _ => "0"

/-- Check a call of a function-like definition, whose result can be anything. -/
def checkDefinition (span : Span) (callee : String) (definition : Macro.Definition) (args : List Typed) :
    Option Finding :=
  if definition.acceptsArity args.length then none
  else some ⟨.macroArity callee (wantedArity definition) args.length, span⟩

def State.function? (state : State) (name : String) : Option Decl :=
  (state.functions.get? name).bind fun id => state.decls[id]?

/-- Check a call by a callee's own name; `none` when nothing can be called so. -/
def checkCallee? (env : Env) (state : State) (span : Span) (callee : String) (args : List Typed) :
    Option Checked :=
  match state.function? callee with
  | some decl => some ⟨.decl decl.id, decl.type, checkArgs span callee decl.params args⟩
  | none =>
    if env.definitions.functions.contains callee then
      let (finding, returns) := checkSignatures span callee (env.definitions.signatures callee) args
      some ⟨.builtin callee, returns, finding⟩
    else
      match env.pre.includedFunction? callee with
      | some found => some ⟨.included found.file, found.type, checkArgs span callee found.params args⟩
      | none =>
        match (env.pre.macros.get? callee).filter fun entry => entry.definition.isFunction with
        | some entry => some ⟨.defined callee, .any, checkDefinition span callee entry.definition args⟩
        | none =>
          if callee == "print" then
            let finding := if args.length == 1 then none else some ⟨.printArity args.length, span⟩
            some ⟨.builtin "print", .void, finding⟩
          else none

/-- The function that an object-like definition stands for. -/
def alias? (env : Env) (callee : String) : Option String :=
  (env.pre.macros.get? callee).bind fun entry =>
    let body := Text.trim entry.definition.body.toList
    if !entry.definition.isFunction && Text.isIdent body then some (String.ofList body) else none

def unknownCallee (span : Span) (callee : String) : Checked :=
  ⟨.unresolved, .any, some ⟨.unknownFunction callee, span⟩⟩

/-- Check a call. A callee may be one definition away from a function. -/
def checkCall (env : Env) (state : State) (span : Span) (callee : String) (args : List Typed) : Checked :=
  match checkCallee? env state span callee args with
  | some checked => checked
  | none =>
    match alias? env callee with
    | some real =>
      let checked := (checkCallee? env state span real args).getD (unknownCallee span real)
      { checked with target := .defined callee }
    | none => unknownCallee span callee

end ScriptLint.Analysis
