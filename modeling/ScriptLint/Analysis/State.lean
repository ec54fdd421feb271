import ScriptLint.Analysis.Problem
import ScriptLint.Definitions
import ScriptLint.Preprocess.Run
import ScriptLint.Text.Lines

/-!
# The state of an analysis

An analysis goes over the significant tokens once, from left to right. Its state is what is left to read and
everything that was found so far. Steps only ever drop tokens from the front, so no token is read twice.
-/

namespace ScriptLint.Analysis

/-- What a name was found to mean. -/
inductive Target where
  | decl (id : Nat)
  /-- A name defined by a directive. -/
  | defined (name : String)
  | constant (name : String)
  | builtin (name : String)
  /-- A declaration of an included file. -/
  | included (file : Path)
  | unresolved
  deriving Repr, DecidableEq

def Target.decl? : Target → Option Nat
  | decl id => some id
  | _ => none

structure Ref where
  name : String
  span : Span
  target : Target
  deriving Repr, DecidableEq

structure CallSite where
  name : String
  /-- The name of the callee. -/
  span : Span
  /-- The whole call with its arguments. -/
  fullSpan : Span
  argTypes : List SemType
  target : Target
  returns : SemType
  deriving Repr, DecidableEq

/-- What is known of an expression. -/
structure Typed where
  type : SemType
  span : Span
  /-- A variable or a member of one, which may be assigned to. -/
  place : Bool := false
  /-- The sign of a plain assignment that the expression is. -/
  assign : Option Span := none
  deriving Repr, DecidableEq

/-- A jump that waits for the end of its body, with the number of its reference. -/
structure Jump where
  name : String
  span : Span
  ref : Nat
  deriving Repr, DecidableEq

/-- The callable whose body is being read. -/
structure Callable where
  returns : SemType
  isEvent : Bool
  name : String
  labels : NameMap Nat := ∅
  jumps : List Jump := []
  deriving Repr, DecidableEq

/-- What an analysis looks things up in. -/
structure Env where
  length : Nat
  lines : LineIndex
  pre : Preprocessed
  definitions : Definitions

structure State where
  rest : List Token
  /-- Where the last token before them ends. -/
  prevEnd : Nat := 0
  arena : Arena
  decls : Array Decl := #[]
  refs : Array Ref := #[]
  calls : Array CallSite := #[]
  findings : Array Finding := #[]
  states : NameMap Nat := ∅
  functions : NameMap Nat := ∅
  /-- Declarations made in advance, by the offset of their name. -/
  prototypes : List (Nat × Nat) := []
  eventParams : List Nat := []
  callable : Option Callable := none

abbrev Scan := StateM State

/-! ## Reading tokens -/

def peek : Scan (Option Token) := do
  return (← get).rest.head?

def peekAt (ahead : Nat) : Scan (Option Token) := do
  return (← get).rest[ahead]?

def remaining : Scan Nat := do
  return (← get).rest.length

def State.advance (count : Nat) (state : State) : State :=
  { state with
    rest := state.rest.drop count
    prevEnd := ((state.rest.take count).getLast?.map fun token => token.span.stop).getD state.prevEnd }

def advance (count : Nat) : Scan Unit := modify (State.advance count)

def bump : Scan Unit := advance 1

def prevEnd : Scan Nat := do
  return (← get).prevEnd

def atPunct (sign : String) : Scan Bool := do
  return (← peek).any (·.isPunct sign)

def atOp (sign : String) : Scan Bool := do
  return (← peek).any (·.isOp sign)

def atWord (word : String) : Scan Bool := do
  return (← peek).any (·.isWord word)

def eatPunct (sign : String) : Scan Bool := do
  if ← atPunct sign then
    bump
    return true
  else return false

/-- The next token's place, or the end of the last one. -/
def here : Scan Span := do
  match ← peek with
  | some token => return token.span
  | none => return .empty (← prevEnd)

/-! ## Findings -/

def report (problem : Problem) (span : Span) : Scan Unit :=
  modify fun state => { state with findings := state.findings.push ⟨problem, span⟩ }

def note (finding : Option Finding) : Scan Unit :=
  match finding with
  | some finding => report finding.problem finding.span
  | none => pure ()

def reportHere (problem : Problem) : Scan Unit := do
  report problem (← here)

def expectPunct (sign context : String) : Scan Bool := do
  if ← eatPunct sign then return true
  else
    let next ← peek
    reportHere (.expected sign context (next.map Token.text))
    return false

/-! ## Recovery -/

/-- How many tokens to skip to the end of a statement: past a semicolon outside brackets, or up to a brace. -/
def recoveryLength : (depth : Nat) → List Token → Nat
  | _, [] => 0
  | depth, token :: rest =>
    if token.isPunct "(" || token.isPunct "[" then recoveryLength (depth + 1) rest + 1
    else if (token.isPunct ")" || token.isPunct "]") && depth > 0 then recoveryLength (depth - 1) rest + 1
    else if token.isPunct ";" && depth == 0 then 1
    else if token.isPunct "\x7b" || token.isPunct "\x7d" then 0
    else recoveryLength depth rest + 1

def recover : Scan Unit := do
  advance (recoveryLength 0 (← get).rest)

def recoverUnless (found : Bool) : Scan Unit :=
  if found then pure () else recover

/-- How many tokens up to the brace that closes `depth` others and one more. -/
def bodyLength : (depth : Nat) → List Token → Nat
  | _, [] => 0
  | depth, token :: rest =>
    if token.isPunct "\x7b" then bodyLength (depth + 1) rest + 1
    else if token.isPunct "\x7d" then
      match depth with
      | 0 => 1
      | depth + 1 => bodyLength depth rest + 1
    else bodyLength depth rest + 1

/-- Skip one token, or everything between two braces. -/
def skipTopLevel : Scan Unit := do
  match (← get).rest with
  | [] => pure ()
  | token :: rest => advance (if token.isPunct "\x7b" then bodyLength 0 rest + 1 else 1)

/-- How many tokens to skip past the end of a parameter list, stopping at a brace. -/
def paramsLength : List Token → Nat
  | [] => 0
  | token :: rest =>
    if token.isPunct "\x7b" || token.isPunct "\x7d" then 0
    else if token.isPunct ")" then 1
    else paramsLength rest + 1

def skipParams : Scan Unit := do
  advance (paramsLength (← get).rest)

/-! ## Scopes, declarations and references -/

def openScope (env : Env) (kind : ScopeKind) (start : Nat) : Scan Nat := do
  modify fun state => { state with arena := state.arena.push kind start env.length }
  return (← get).arena.current

def popScope (stop : Nat) : Scan Unit :=
  modify fun state => { state with arena := state.arena.pop stop }

def closeScope (scope stop : Nat) : Scan Unit :=
  modify fun state => { state with arena := state.arena.popTo scope stop }

def currentScope : Scan Nat := do
  return (← get).arena.current

def nextDecl : Scan Nat := do
  return (← get).decls.size

def pushDecl (decl : Decl) : Scan Unit :=
  modify fun state => { state with decls := state.decls.push decl }

def updateDecl (id : Nat) (change : Decl → Decl) : Scan Unit :=
  modify fun state => { state with decls := state.decls.modify id change }

def State.kindOf (state : State) (id : Nat) : Option DeclKind :=
  state.decls[id]?.map Decl.kind

def addRef (name : String) (span : Span) (target : Target) : Scan Nat := do
  modify fun state => { state with refs := state.refs.push ⟨name, span, target⟩ }
  return (← get).refs.size - 1

/-- Words that can never name a declaration. -/
def reservedWords : List String :=
  ["default", "state", "event", "jump", "return", "if", "else", "for", "do", "while", "print", "integer",
    "float", "string", "key", "vector", "rotation", "quaternion", "list", "void"]

def isReserved (name : String) : Bool := reservedWords.contains name

/-- Bind a name in a scope to the next declaration; the declaration in the way, if there is one. -/
def bindName (scope : Nat) (name : String) (id : Nat) : Scan (Option Nat) := do
  match (← get).arena.named? scope name with
  | some earlier => return some earlier
  | none =>
    modify fun state => { state with arena := state.arena.declare scope name id }
    return none

/-- Declare a variable or a parameter in a scope, unless its name is reserved or taken there. -/
def declare (kind : DeclKind) (name : Token) (type : SemType) (full : Span) (scope : Nat) :
    Scan (Option Nat) := do
  if isReserved name.text then
    report (.reserved name.text .declaration) name.span
    return none
  else
    let id ← nextDecl
    match ← bindName scope name.text id with
    | some earlier =>
      report (.declaredInScope name.text ((← get).kindOf earlier)) name.span
      return none
    | none =>
      pushDecl ⟨id, name.text, kind, type, [], name.span, full, scope⟩
      return some id

end ScriptLint.Analysis
