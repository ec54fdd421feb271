import ScriptLint.Analysis.Statement
import ScriptLint.TopLevel

/-!
# Reading a document

States, callables and global variables. Functions and states are declared in advance, so that they can be
used before the place where they are written.
-/

namespace ScriptLint.Analysis

/-! ## Declarations in advance -/

/-- The declaration of a callable or state whose name stands at a span. -/
def headerDecl (id : Nat) (name : String) (kind : DeclKind) (type : SemType) (params : List Param)
    (span : Span) (start stop scope : Nat) : Decl :=
  ⟨id, name, kind, type, params, span, ⟨min start span.start, max stop span.stop⟩, scope⟩

/-- Remember a declaration by the offset of its name. -/
def addPrototype (offset id : Nat) : Scan Unit :=
  modify fun state => { state with prototypes := (offset, id) :: state.prototypes }

def predeclareState (item : TopLevel.Item) : Scan Unit := do
  if item.name != "default" && isReserved item.name then
    report (.reserved item.name .state) item.span
  else if (← get).states.contains item.name then report (.duplicateState item.name) item.span
  else
    let id ← nextDecl
    pushDecl (headerDecl id item.name .state .void [] item.span item.span.start item.span.stop
      Arena.globalScope)
    modify fun state => { state with states := state.states.insert item.name id }
    addPrototype item.span.start id

def predeclareFunction (env : Env) (item : TopLevel.Item) : Scan Unit := do
  -- A handler outside a state is reported where it is read.
  if env.definitions.events.contains item.name then return ()
  else if isReserved item.name then report (.reserved item.name .function) item.span
  else
    let id ← nextDecl
    match ← bindName Arena.globalScope item.name id with
    | some earlier => report (.declaredGlobally item.name ((← get).kindOf earlier)) item.span
    | none =>
      pushDecl (headerDecl id item.name .func (item.type.getD .void) item.params item.span item.span.start
        item.span.stop Arena.globalScope)
      modify fun state => { state with functions := state.functions.insert item.name id }
      addPrototype item.span.start id

def predeclare (env : Env) (item : TopLevel.Item) : Scan Unit :=
  match item.kind with
  | .state => predeclareState item
  | .function => predeclareFunction env item
  -- Variables are declared where they are written.
  | .global => return ()

/-! ## Callables -/

/-- A parameter and the place of its type. -/
structure ParamAt where
  param : Param
  span : Span
  deriving Repr, DecidableEq

def declareParam (kind : DeclKind) (scope : Nat) (type : SemType) (typeToken name : Token) : Scan Unit := do
  match ← declare .param name type (typeToken.span.cover name.span) scope with
  | some id =>
    if kind == .event then
      modify fun state => { state with eventParams := id :: state.eventParams }
  | none => return ()

def readParams (kind : DeclKind) (scope : Nat) : (limit : Nat) → Scan (List ParamAt)
  | 0 => return []
  | limit + 1 => do
    match ← peek with
    | none => return []
    | some typeToken =>
      match TopLevel.typeOf? typeToken with
      | none =>
        report (.expectedParamType typeToken.text) typeToken.span
        skipParams
        return []
      | some type =>
        bump
        match (← peek).filter Token.isIdent with
        | none =>
          reportHere .expectedParamName
          skipParams
          return []
        | some name =>
          bump
          declareParam kind scope type typeToken name
          let read : ParamAt := ⟨⟨name.text, type⟩, typeToken.span⟩
          if ← eatPunct "," then
            let more ← readParams kind scope limit
            return read :: more
          else
            if !(← expectPunct ")" "to close the parameter list") then skipParams
            return [read]

def readParamList (kind : DeclKind) (scope : Nat) : Scan (List ParamAt) := do
  if !(← expectPunct "(" "to open the parameter list") then return []
  else if ← eatPunct ")" then return []
  else readParams kind scope ((← remaining) + 1)

/-- The first parameter whose type is not the one that the event has, counted from one. -/
def firstEventMismatch (event : String) : (index : Nat) → List Param → List ParamAt → Option Finding
  | index, wanted :: params, read :: rest =>
    if wanted.type == read.param.type then firstEventMismatch event (index + 1) params rest
    else some ⟨.eventParam index event wanted.type read.param.type, read.span⟩
  | _, _, _ => none

/-- What is wrong with the parameters of a handler. -/
def eventFinding (env : Env) (name : Token) (params : List ParamAt) : Option Finding :=
  match env.definitions.events.get? name.text with
  | none => some ⟨.unknownEvent name.text, name.span⟩
  | some event =>
    if event.params.length ≠ params.length then
      some ⟨.eventArity name.text event.params.length params.length, name.span⟩
    else firstEventMismatch name.text 1 event.params params

/-- The declaration of a callable: the one made in advance, or a new one. A handler is bound in its state. -/
def callableDecl (kind : DeclKind) (type : SemType) (name : Token) (start owner : Nat) : Scan Nat := do
  match (← get).prototypes.lookup name.span.start with
  | some id => return id
  | none =>
    let id ← nextDecl
    pushDecl (headerDecl id name.text kind type [] name.span start name.span.stop owner)
    let inState := ((← get).arena.get? owner).any (·.kind == .state)
    if kind == .event && inState then
      if (← bindName owner name.text id).isSome then report (.duplicateHandler name.text) name.span
    return id

def resolveJump (labels : NameMap Nat) (jump : Jump) : Scan Unit :=
  match labels.get? jump.name with
  | some id =>
    modify fun state =>
      { state with refs := state.refs.modify jump.ref fun ref => { ref with target := .decl id } }
  | none => report (.unknownLabel jump.name) jump.span

def resolveJumps (callable : Option Callable) : Scan Unit :=
  match callable with
  | some callable => callable.jumps.forM (resolveJump callable.labels)
  | none => return ()

/-- Replace the callable whose body is being read, and give the one before. -/
def exchangeCallable (callable : Option Callable) : Scan (Option Callable) := do
  let before := (← get).callable
  modify fun state => { state with callable }
  return before

/-- Read the body of a callable and check its returns. Gives where it ends. -/
def readCallableBody (env : Env) (kind : DeclKind) (returns : SemType) (name : Token) : Scan Nat := do
  let outer ← exchangeCallable (some { returns, isEvent := kind == .event, name := name.text })
  let always ← readBody env
  let stop ← prevEnd
  let inner ← exchangeCallable outer
  resolveJumps inner
  if kind == .func && returns != .void && !always then
    report (.missingReturn name.text returns) name.span
  return stop

/-- Report a missing body and skip what stands there. Gives where the header ends. -/
def skipMissingBody : Scan Nat := do
  let stop ← prevEnd
  discard (expectPunct "\x7b" "to open the body")
  recover
  return stop

/-- Report what is wrong with the header of a handler. -/
def checkHandler (env : Env) (kind : DeclKind) (type : Option SemType) (name : Token)
    (params : List ParamAt) : Scan Unit := do
  if kind == .event then
    if type.isSome then report (.typedHandler name.text) name.span
    note (eventFinding env name params)

/-- Read a function or an event handler from its parameter list on. -/
def readCallable (env : Env) (kind : DeclKind) (type : Option SemType) (name : Token) (start : Nat) :
    Scan Unit := do
  let owner ← currentScope
  let returns := type.getD .void
  let id ← callableDecl kind returns name start owner
  let scope ← openScope env .params (← here).start
  let params ← readParamList kind scope
  checkHandler env kind type name params
  let stop ← if ← atPunct "\x7b" then readCallableBody env kind returns name else skipMissingBody
  closeScope scope stop
  updateDecl id fun _ =>
    headerDecl id name.text kind returns (params.map ParamAt.param) name.span start stop owner

/-! ## States -/

/-- Read the handlers of a state up to its closing brace. -/
def readHandlers (env : Env) (state : String) : (limit : Nat) → Scan Unit
  | 0 => return ()
  | limit + 1 => do
    match (← get).rest with
    | [] => report (.stateNotClosed state) (.empty env.length)
    | token :: rest =>
      if token.isPunct "\x7d" then bump
      else
        if token.isIdent && rest.head?.any (·.isPunct "(") then
          bump
          readCallable env .event none token token.span.start
        else
          report (.expectedHandler state token.text) token.span
          if !token.isPunct "\x7b" then recover
          if ← atPunct "\x7b" then skipTopLevel
        readHandlers env state limit

/-- The declaration of a state: the one made in advance, or a new one for a state that was refused. -/
def stateDecl (name : Token) : Scan Nat := do
  match (← get).prototypes.lookup name.span.start with
  | some id => return id
  | none =>
    let id ← nextDecl
    pushDecl (headerDecl id name.text .state .void [] name.span name.span.start name.span.stop
      Arena.globalScope)
    return id

def readStateBody (env : Env) (head name : Token) (id : Nat) : Scan Unit := do
  discard (openScope env .state (← here).start)
  bump
  readHandlers env name.text ((← remaining) + 1)
  let stop ← prevEnd
  popScope stop
  updateDecl id fun decl => { decl with fullSpan := ⟨head.span.start, max stop head.span.stop⟩ }

def readState (env : Env) (head : Token) : Scan Unit := do
  bump
  match ← if head.isWord "default" then pure (some head) else readIdent .expectedStateName with
  | none => return ()
  | some name =>
    let id ← stateDecl name
    if ← atPunct "\x7b" then readStateBody env head name id
    else
      discard (expectPunct "\x7b" "to open the state body")
      recover

/-! ## Global items -/

def skipItem : Scan Unit := do
  recover
  if ← atPunct "\x7b" then skipTopLevel
  else if ← atPunct "\x7d" then bump

/-- Read a callable outside all states. An event handler does not belong there. -/
def readGlobalCallable (env : Env) (type : Option SemType) (name : Token) (start : Nat) : Scan Unit := do
  if env.definitions.events.contains name.text then
    report (.handlerOutsideState name.text) name.span
    readCallable env .event type name start
  else readCallable env .func type name start

/-- Read what follows the name of a global item. -/
def readNamedItem (env : Env) (type : Option SemType) (name : Token) (start : Nat) : Scan Unit := do
  if ← atPunct "(" then readGlobalCallable env type name start
  else
    let declares := (← atPunct ";") || (← atOp "=")
    match type.filter fun _ => declares with
    | some type => readVarDecl env type name start
    | none =>
      report (.expectedDeclaration name.text) name.span
      skipItem

def readGlobalItem (env : Env) (first : Token) : Scan Unit := do
  bump
  match SemType.ofKeyword? first.text with
  | none => readNamedItem env none first first.span.start
  | some type =>
    match ← readIdent (.expectedName first.text) with
    | none => return ()
    | some name => readNamedItem env (some type) name first.span.start

def readItems (env : Env) : (limit : Nat) → Scan Unit
  | 0 => return ()
  | limit + 1 => do
    match ← peek with
    | none => return ()
    | some token =>
      if token.isWord "default" || token.isWord "state" then readState env token
      else if token.isIdent then readGlobalItem env token
      else
        report (.unexpectedTopLevel token.text) token.span
        skipTopLevel
      readItems env limit

/-- Declare in advance what can be, then read the whole document. -/
def readDocument (env : Env) : Scan Unit := do
  (TopLevel.scan (← get).rest).forM (predeclare env)
  readItems env ((← remaining) + 1)

end ScriptLint.Analysis
