import ScriptLint.Analysis.Lookup
import ScriptLint.Analysis.Typing

/-!
# Reading expressions

Expressions are read by the strength of their operators and never kept: each step gives the type of what was
read. Parts are read by a function `sub` that stands for reading an expression of some least strength. The
knot is tied on the number of tokens that are left, which is smaller wherever a part begins.
-/

namespace ScriptLint.Analysis

/-- Read an expression of at least some strength. -/
abbrev Reader := (least : Nat) → Scan Typed

/-- Report what a rule finds and go on with what it gives. -/
def conclude (judgement : Judgement) : Scan Typed := do
  note judgement.finding
  return judgement.typed

/-- From the start of a span to the last token read. -/
def spanFrom (opening : Span) : Scan Span := do
  return opening.cover (.empty (← prevEnd))

def readArgs (sub : Reader) : (limit : Nat) → Scan (List Typed)
  | 0 => return []
  | limit + 1 => do
    let before ← remaining
    let arg ← sub 0
    if ← eatPunct "," then
      let args ← readArgs sub limit
      return arg :: args
    else
      let closed ← expectPunct ")" "to close the argument list"
      let after ← remaining
      recoverUnless (closed || after != before)
      return [arg]

def readCallArgs (sub : Reader) : Scan (List Typed) := do
  if !(← eatPunct "(") then return []
  else if ← eatPunct ")" then return []
  else readArgs sub ((← remaining) + 1)

def readCall (env : Env) (sub : Reader) (name : Token) : Scan Typed := do
  let args ← readCallArgs sub
  let fullSpan ← spanFrom name.span
  let checked := checkCall env (← get) name.span name.text args
  note checked.finding
  let _ ← addRef name.text name.span checked.target
  modify fun state =>
    { state with
      calls := state.calls.push
        ⟨name.text, name.span, fullSpan, args.map Typed.type, checked.target, checked.returns⟩ }
  return { type := checked.returns, span := fullSpan }

def readName (env : Env) (name : Token) : Scan Typed := do
  let meaning := meaningOf env (← get) name.text name.span
  let _ ← addRef name.text name.span meaning.target
  note meaning.finding
  return meaning.typed

/-- The type of a conversion at the front: a type between parentheses. -/
def castAt? : List Token → Option SemType
  | _ :: type :: close :: _ =>
    if type.isIdent && close.isPunct ")" then SemType.ofKeyword? type.text else none
  | _ => none

def readParens (sub : Reader) : Scan Typed := do
  let opening ← here
  match castAt? (← get).rest with
  | some target =>
    advance 3
    let operand ← sub frontStrength
    conclude (castRule opening target operand)
  | none =>
    bump
    let inner ← sub 0
    let _ ← expectPunct ")" "to close the parenthesis"
    let span ← spanFrom opening
    return { type := inner.type, span, place := inner.place }

def readComponents (sub : Reader) : (limit : Nat) → Scan (List Typed)
  | 0 => return []
  | limit + 1 => do
    let part ← sub componentStrength
    if ← eatPunct "," then
      let parts ← readComponents sub limit
      return part :: parts
    else if ← atOp ">" then
      bump
      return [part]
    else
      reportHere .expectedComponent
      return [part]

def readVector (sub : Reader) : Scan Typed := do
  let opening ← here
  bump
  let parts ← readComponents sub ((← remaining) + 1)
  let span ← spanFrom opening
  parts.forM fun part => note (componentFinding part)
  conclude (vectorRule span parts.length)

def readElements (sub : Reader) : (limit : Nat) → Scan Unit
  | 0 => return ()
  | limit + 1 => do
    let item ← sub 0
    note (elementFinding item)
    if ← eatPunct "," then readElements sub limit
    else
      discard (expectPunct "]" "to close the list")

def readList (sub : Reader) : Scan Typed := do
  let opening ← here
  bump
  if !(← eatPunct "]") then readElements sub ((← remaining) + 1)
  return { type := .list, span := ← spanFrom opening }

/-- A token that ends an expression without being part of it. -/
def endsExpr (token : Token) : Bool :=
  [";", ",", ")", "]", "\x7d"].any token.isPunct

/-- Read what is neither a sign in front nor a vector. -/
def readPrimary (env : Env) (sub : Reader) (token : Token) (next : Option Token) : Scan Typed :=
  match token.kind with
  | .number => do
    bump
    return { type := numberType token.text, span := token.span }
  | .str => do
    bump
    return { type := .string, span := token.span }
  | .ident =>
    if (SemType.ofKeyword? token.text).isNone && next.any (·.isPunct "(") then do
      bump
      readCall env sub token
    else if isReserved token.text then do
      report (.keywordInExpression token.text) token.span
      bump
      return { type := .any, span := token.span }
    else do
      bump
      readName env token
  | _ =>
    if token.isPunct "(" then readParens sub
    else if token.isPunct "[" then readList sub
    else do
      report (.expectedExpression (some token.text)) token.span
      if !(endsExpr token || token.isPunct "\x7b") then bump
      return { type := .any, span := token.span }

def readMembers : (limit : Nat) → (base : Typed) → Scan Typed
  | 0, base => return base
  | limit + 1, base => do
    if ← eatPunct "." then
      match ← peek with
      | some name =>
        if name.isIdent then
          bump
          let base ← conclude (memberRule base name)
          readMembers limit base
        else
          reportHere .expectedMember
          return { type := .any, span := base.span }
      | none =>
        reportHere .expectedMember
        return { type := .any, span := base.span }
    else return base

def readOperand (env : Env) (sub : Reader) : Scan Typed := do
  match (← get).rest with
  | [] =>
    reportHere (.expectedExpression none)
    return { type := .any, span := ← here }
  | token :: rest =>
    if token.isOp "<" then readVector sub
    else if token.kind == .op && isFrontSign token.text then
      bump
      let operand ← sub frontStrength
      if isStepSign token.text then
        conclude (stepRule token operand (token.span.cover operand.span))
      else conclude (unaryRule token operand)
    else
      let base ← readPrimary env sub token rest.head?
      readMembers ((← remaining) + 1) base

/-- Extend an operand by the operators behind it that have at least some strength. -/
def climb (sub : Reader) (least : Nat) : (limit : Nat) → (left : Typed) → Scan Typed
  | 0, left => return left
  | limit + 1, left => do
    match ← peek with
    | none => return left
    | some op =>
      if op.kind != .op then return left
      else if isStepSign op.text then
        if behindStrength < least then return left
        else
          bump
          let left ← conclude (stepRule op left (left.span.cover op.span))
          climb sub least limit left
      else
        match strength? op.text with
        | none => return left
        | some (toLeft, toRight) =>
          if toLeft < least then return left
          else
            bump
            let right ← sub toRight
            let left ← conclude
              (if (toLeft, toRight) == assignStrength then assignRule left op right
              else binaryRule left op right)
            climb sub least limit left

/-- Read an expression, with parts nested at most `depth` deep. -/
def readExprWithin (env : Env) : (depth : Nat) → Reader
  | 0, _ => do return { type := .any, span := ← here }
  | depth + 1, least => do
    let left ← readOperand env (readExprWithin env depth)
    climb (readExprWithin env depth) least ((← remaining) + 1) left

def readExpr (env : Env) : Scan Typed := do
  readExprWithin env ((← remaining) + 1) 0

end ScriptLint.Analysis
