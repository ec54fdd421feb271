import ScriptLint.Analysis.Item

/-!
# Analysis of a document

The declarations, references, calls and scopes of a document, what is wrong with them, and questions about
a place in it.
-/

namespace ScriptLint

open Analysis in
/-- Everything that was learned about a document. -/
structure Analysis where
  diagnostics : List Diagnostic
  decls : Array Decl
  refs : Array Ref
  calls : Array CallSite
  scopes : Array Scope
  states : NameMap Nat
  functions : NameMap Nat

namespace Analysis

/-! ## Unused declarations -/

/-- Whether some reference means a declaration. -/
def State.isUsed (state : State) (id : Nat) : Bool :=
  state.refs.any fun ref => ref.target.decl? == some id

/-- What to say about a declaration that nothing refers to. Event parameters are fixed by their event. -/
def unusedProblem? (state : State) (decl : Decl) : Option Problem :=
  match decl.kind with
  | .var => some (if decl.scope == Arena.globalScope then .unusedVar decl.name else .unusedLocal decl.name)
  | .param => if state.eventParams.contains decl.id then none else some (.unusedParam decl.name)
  | _ => none

/-- A variable or parameter should be used, unless its name begins with an underscore: then it should not. -/
def usageFinding? (state : State) (decl : Decl) : Option Finding :=
  (unusedProblem? state decl).bind fun unused =>
    let used := state.isUsed decl.id
    if decl.name.toList.head? == some '_' then
      if used then some ⟨.underscoreUsed decl.name, decl.span⟩ else none
    else if used then none
    else some ⟨unused, decl.span⟩

/-- What is left when everything was read: unused declarations are reported and open scopes closed. -/
def State.result (state : State) (length : Nat) : Analysis :=
  let findings := state.findings.toList ++ state.decls.toList.filterMap (usageFinding? state)
  let arena := state.arena.opened.foldl (fun arena _ => arena.pop length) state.arena
  { diagnostics := findings.map Finding.diagnostic
    decls := state.decls
    refs := state.refs
    calls := state.calls
    scopes := arena.scopes
    states := state.states
    functions := state.functions }

/-! ## Questions -/

def decl? (analysis : Analysis) (id : Nat) : Option Decl := analysis.decls[id]?

/-- The reference at an offset; right behind a word counts. -/
def refAt? (analysis : Analysis) (offset : Nat) : Option Ref :=
  analysis.refs.find? fun ref => ref.span.touches offset

/-- The declaration that is named at an offset, by itself or by a reference. -/
def symbolAt? (analysis : Analysis) (offset : Nat) : Option Decl :=
  match analysis.decls.find? fun decl => decl.span.touches offset with
  | some decl => some decl
  | none => ((analysis.refAt? offset).bind fun ref => ref.target.decl?).bind analysis.decl?

def referencesTo (analysis : Analysis) (id : Nat) : List Ref :=
  analysis.refs.toList.filter fun ref => ref.target.decl? == some id

/-- Whether a scope lies at least as deep as another: it starts later, or ends earlier. -/
def atLeastAsDeep (scope other : Scope) : Bool :=
  if scope.span.start == other.span.start then scope.span.stop ≤ other.span.stop
  else scope.span.start > other.span.start

/-- The deepest scope around an offset, the last one if there are several. -/
def innermostAt (analysis : Analysis) (offset : Nat) : Nat :=
  let deepest := (analysis.scopes.toList.filter fun scope => scope.span.touches offset).foldl
    (fun best scope =>
      match best with
      | none => some scope
      | some other => if atLeastAsDeep scope other then some scope else best)
    none
  (deepest.map Scope.id).getD Arena.globalScope

/-- A scope and those around it, at most `steps` of them. -/
def enclosing (analysis : Analysis) : (steps : Nat) → (id : Nat) → List Scope
  | 0, _ => []
  | steps + 1, id =>
    match analysis.scopes[id]? with
    | none => []
    | some scope => scope :: (scope.parent.map (analysis.enclosing steps)).getD []

/-- Variables and parameters are visible from their name on, and everything else throughout its scope. -/
def isVisibleAt (offset : Nat) (decl : Decl) : Bool :=
  !(decl.kind == .var || decl.kind == .param) || decl.span.start ≤ offset

/-- Add a declaration whose name is not hidden by an earlier one. -/
def addVisible (shown : List Decl) (decl : Decl) : List Decl :=
  if shown.any fun earlier => earlier.name == decl.name then shown else shown ++ [decl]

/-- The declarations visible at an offset, innermost scope first, and then the states. -/
def visibleAt (analysis : Analysis) (offset : Nat) : List Decl :=
  let scopes := analysis.enclosing (analysis.scopes.size + 1) (analysis.innermostAt offset)
  let declared := (scopes.flatMap fun scope => scope.names.values).filterMap analysis.decl?
  let states := analysis.states.values.filterMap analysis.decl?
  (declared.filter (isVisibleAt offset) ++ states).foldl addVisible []

end Analysis

/-- Analyse the tokens of a document of some length. -/
def analyze (text : List Char) (tokens : List Token) (pre : Preprocessed) (definitions : Definitions) :
    Analysis :=
  let length := Text.byteLength text
  let env : Analysis.Env := ⟨length, LineIndex.ofText text, pre, definitions⟩
  let start : Analysis.State :=
    { rest := tokens.filter fun token => !token.isTrivia, arena := Arena.new length }
  let (_, state) := (Analysis.readDocument env).run start
  state.result length

end ScriptLint
