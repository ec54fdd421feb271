import ScriptLint.Analysis.Expr

/-!
# Reading statements

Each statement tells whether every path through it returns. As with expressions, statements inside a statement
are read by a function `sub`, and the knot is tied on the number of tokens that are left.
-/

namespace ScriptLint.Analysis

/-- Read a statement; the flag says that declarations are allowed. -/
abbrev StatementReader := (inBlock : Bool) → Scan Bool

/-- Report the tokens that follow a terminating statement on its line, up to a closing brace. -/
def checkDeadCode (env : Env) (terminatorEnd : Nat) : Scan Unit := do
  let line := env.lines.lineOf (terminatorEnd - 1)
  let dead := (← get).rest.takeWhile fun token =>
    env.lines.lineOf token.span.start == line && !token.isPunct "\x7d"
  match dead.head?, dead.getLast? with
  | some first, some last => report .deadCode (first.span.cover last.span)
  | _, _ => return ()

/-- End a terminating statement: recover when its semicolon is missing, else look for dead code. -/
def endTerminator (env : Env) (inBlock closed : Bool) : Scan Unit := do
  if !closed then recover
  else if inBlock then checkDeadCode env (← prevEnd)

/-- Read a variable's initial value, if there is one, and declare it behind that. -/
def readVarDecl (env : Env) (type : SemType) (name : Token) (start : Nat) : Scan Unit := do
  if ← atOp "=" then
    bump
    let value ← readExpr env
    if !type.accepts value.type then report (.initializer type name.text value.type) value.span
  let stop := (← here).stop
  let _ ← declare .var name type ⟨start, max stop name.span.stop⟩ (← currentScope)
  recoverUnless (← expectPunct ";" "after the declaration")

def checkCondition (what : String) (condition : Typed) : Scan Unit :=
  (conditionFindings what condition).forM fun finding => note (some finding)

def readCondition (env : Env) (what : String) : Scan Unit := do
  if ← expectPunct "(" s!"after '{what}'" then
    let condition ← readExpr env
    checkCondition what condition
    recoverUnless (← expectPunct ")" s!"to close the '{what}' condition")

def readExprList (env : Env) (close : String) : (limit : Nat) → Scan Unit
  | 0 => return ()
  | limit + 1 => do
    let next ← peek
    if next.isNone || next.any (·.isPunct close) then return ()
    else
      let _ ← readExpr env
      if ← eatPunct "," then readExprList env close limit else return ()

/-- What is wrong with a return in the body of a callable. -/
def returnFinding (callable : Callable) (keyword : Span) (value : Option Typed) : Option Finding :=
  match value with
  | some value =>
    if callable.returns == .void then some ⟨.returnInVoid callable.isEvent callable.name, value.span⟩
    else if callable.returns.accepts value.type then none
    else some ⟨.returnType callable.name callable.returns value.type, value.span⟩
  | none =>
    if callable.returns == .void then none
    else some ⟨.returnWithoutValue callable.name callable.returns, keyword⟩

def readReturn (env : Env) (inBlock : Bool) (keyword : Token) : Scan Unit := do
  bump
  let value ← if ← atPunct ";" then pure none else some <$> readExpr env
  let closed ← expectPunct ";" "after 'return'"
  note ((← get).callable.bind fun callable => returnFinding callable keyword.span value)
  endTerminator env inBlock closed

def readIdent (problem : Problem) : Scan (Option Token) := do
  match ← peek with
  | some token =>
    if token.isIdent then
      bump
      return some token
    else
      reportHere problem
      recover
      return none
  | none =>
    reportHere problem
    recover
    return none

def readStateChange (env : Env) (inBlock : Bool) : Scan Unit := do
  bump
  match ← readIdent .expectedStateName with
  | none => return ()
  | some name =>
    match (← get).states.get? name.text with
    | some id => discard (addRef name.text name.span (.decl id))
    | none =>
      discard (addRef name.text name.span .unresolved)
      report (.unknownState name.text) name.span
    endTerminator env inBlock (← expectPunct ";" "after the state change")

/-- Remember a jump until the labels of the body are known. -/
def addJump (jump : Jump) : Scan Unit :=
  modify fun state =>
    { state with
      callable := state.callable.map fun callable => { callable with jumps := callable.jumps ++ [jump] } }

def readJump (env : Env) (inBlock : Bool) : Scan Unit := do
  bump
  match ← readIdent .expectedLabel with
  | none => return ()
  | some name =>
    let ref ← addRef name.text name.span .unresolved
    addJump ⟨name.text, name.span, ref⟩
    endTerminator env inBlock (← expectPunct ";" "after the jump")

/-- Declare a label, unless its callable has one of that name. -/
def declareLabel (at_ : Span) (name : Token) : Scan Unit := do
  let known := (← get).callable.any fun callable => callable.labels.contains name.text
  if isReserved name.text then report (.reserved name.text .label) name.span
  else if known then report (.duplicateLabel name.text) name.span
  else
    let id ← nextDecl
    let scope ← currentScope
    pushDecl ⟨id, name.text, .label, .void, [], name.span, at_.cover name.span, scope⟩
    modify fun state =>
      { state with
        callable := state.callable.map fun callable =>
          { callable with labels := callable.labels.insert name.text id } }

def readLabel : Scan Unit := do
  let at_ ← here
  bump
  match ← readIdent .expectedLabelName with
  | none => return ()
  | some name =>
    declareLabel at_ name
    recoverUnless (← expectPunct ";" "after the label")

def readStatements (sub : StatementReader) (opening : Span) : (limit : Nat) → (returns : Bool) → Scan Bool
  | 0, returns => return returns
  | limit + 1, returns => do
    match ← peek with
    | none =>
      report .blockNotClosed opening
      return returns
    | some token =>
      if token.isPunct "\x7d" then
        bump
        return returns
      else
        let before ← remaining
        let returned ← sub true
        -- A token that no statement takes is passed over.
        if (← remaining) == before then bump
        readStatements sub opening limit (returns || returned)

def readBlock (env : Env) (sub : StatementReader) : Scan Bool := do
  let opening ← here
  let scope ← openScope env .block opening.start
  bump
  let returns ← readStatements sub opening ((← remaining) + 1) false
  closeScope scope (← prevEnd)
  return returns

def readIf (env : Env) (sub : StatementReader) : Scan Bool := do
  bump
  readCondition env "if"
  let returns ← sub false
  if ← atWord "else" then
    bump
    let otherwise ← sub false
    return returns && otherwise
  else return false

def readDo (env : Env) (sub : StatementReader) : Scan Bool := do
  bump
  let returns ← sub false
  if ← atWord "while" then
    bump
    readCondition env "do-while"
  else reportHere .expectedWhile
  recoverUnless (← expectPunct ";" "after 'do ... while (...)'")
  return returns

def readForHeader (env : Env) : Scan Unit := do
  readExprList env ";" ((← remaining) + 1)
  discard (expectPunct ";" "after the loop initializer")
  if !(← atPunct ";") then
    let condition ← readExpr env
    checkCondition "for" condition
  discard (expectPunct ";" "after the loop condition")
  readExprList env ")" ((← remaining) + 1)
  recoverUnless (← expectPunct ")" "to close the loop header")

def readFor (env : Env) (sub : StatementReader) : Scan Unit := do
  let scope ← openScope env .forHeader (← here).start
  bump
  if ← expectPunct "(" "after 'for'" then readForHeader env
  discard (sub false)
  closeScope scope (← prevEnd)

def readExprStatement (env : Env) : Scan Unit := do
  discard (readExpr env)
  recoverUnless (← expectPunct ";" "after the expression")

/-- The type and the name that begin a declaration. -/
def declarationAt? : List Token → Option (SemType × Token)
  | type :: name :: _ =>
    if name.isIdent then (SemType.ofKeyword? type.text).map fun type => (type, name) else none
  | _ => none

/-- Read a statement that begins with an identifier but with no keyword of its own. -/
def readPlain (env : Env) (inBlock : Bool) (token : Token) : Scan Unit := do
  match declarationAt? (← get).rest with
  | some (type, name) =>
    if !inBlock then report .declarationNotAllowed token.span
    advance 2
    readVarDecl env type name token.span.start
  | none => readExprStatement env

def readWordStatement (env : Env) (sub : StatementReader) (inBlock : Bool) (token : Token) : Scan Bool :=
  match token.text with
  | "if" => readIf env sub
  | "while" => do
    bump
    readCondition env "while"
    discard (sub false)
    return false
  | "do" => readDo env sub
  | "for" => do
    readFor env sub
    return false
  | "return" => do
    readReturn env inBlock token
    return true
  | "state" => do
    readStateChange env inBlock
    return false
  | "jump" => do
    readJump env inBlock
    return false
  | "else" => do
    report .strayElse token.span
    bump
    return false
  | _ => do
    readPlain env inBlock token
    return false

/-- Read a statement whose parts are read by `sub`. -/
def readStatementWith (env : Env) (sub : StatementReader) (inBlock : Bool) : Scan Bool := do
  match ← peek with
  | none => return false
  | some token =>
    if token.isPunct "\x7b" then readBlock env sub
    else if token.isPunct ";" then
      bump
      return false
    else if token.isPunct "@" then
      readLabel
      return false
    else if token.isIdent then readWordStatement env sub inBlock token
    else
      readExprStatement env
      return false

/-- Read a statement, with statements nested at most `depth` deep. -/
def readStatementWithin (env : Env) : (depth : Nat) → StatementReader
  | 0, _ => return false
  | depth + 1, inBlock => readStatementWith env (readStatementWithin env depth) inBlock

def readBody (env : Env) : Scan Bool := do
  readBlock env (readStatementWithin env ((← remaining) + 1))

end ScriptLint.Analysis
