import ScriptLint.Proofs.Descent
import ScriptLint.Proofs.Predeclared

/-!
# Reading a document ends

Whatever the tokens are, each round of reading items, handlers, statements, parameters and lists of expressions begins
with fewer tokens left than the one before, and so does each statement and each expression inside another one. Nothing
goes back. A document is thus read to its end, and the bounds of the readers play no part.
-/

namespace ScriptLint.Analysis

open List

/-! ## Rounds -/

/-- One expression of a loop's header. -/
def exprListRound (env : Env) (close : String) (call : Unit → Scan Unit) (_ : Unit) : Scan Unit := do
  let next ← peek
  if next.isNone || next.any (·.isPunct close) then return ()
  else
    let _ ← readExpr env
    if ← eatPunct "," then call () else return ()

/-- One parameter. -/
def paramsRound (kind : DeclKind) (scope : Nat) (call : Unit → Scan (List ParamAt)) (_ : Unit) :
    Scan (List ParamAt) := do
  match ← peek with
  | none => return []
  | some typeToken =>
    match TopLevel.typeOf? typeToken with
    | none =>
      report (.expectedParamType typeToken.text) typeToken.span
      skipParams
      return []
    | some type =>
      bump
      match (← peek).filter Token.isIdent with
      | none =>
        reportHere .expectedParamName
        skipParams
        return []
      | some name =>
        bump
        declareParam kind scope type typeToken name
        let read : ParamAt := ⟨⟨name.text, type⟩, typeToken.span⟩
        if ← eatPunct "," then
          let more ← call ()
          return read :: more
        else
          if !(← expectPunct ")" "to close the parameter list") then skipParams
          return [read]

/-! ## Rounds descend -/

theorem forward_course (env : Env) : Course env Forward Forward where
  trans first second := List.IsSuffix.trans second first
  forward passed := passed
  bodies := Bodies.forward
  statement taken := taken
  stuck _ _ taken _ := List.IsSuffix.trans (drop_suffix ..) taken
  block _ _ inside _ := ((drop_suffix ..).trans inside).trans (drop_suffix ..)
  loop _ _ inside := List.IsSuffix.trans inside (drop_suffix ..)

/-- The statements inside a statement begin behind its first token. -/
theorem readStatementWith_descends (env : Env) : Descends (readStatementWith env) := fun _ _ _ calls inBlock =>
  ((readStatementWith_agree (forward_course env) calls.agree (Nat.lt_succ_self _) inBlock).mono
    fun _ _ taken => taken.1).alike

section Rounds

variable {α β : Type} {call other : α → Scan β} {state after : State}

theorem AlikeBelow.since (calls : AlikeBelow state.rest.length call other) (value : α) (passed : Forward state after)
    (fewer : after.rest.length < state.rest.length) :
    Agree (call value) (other value) after fun _ last => Forward state last :=
  forward_passage.since passed (calls.agree value after fewer)

end Rounds

theorem exprListRound_descends (env : Env) (close : String) : Descends (exprListRound env close) := by
  intro call other state calls _
  refine Agree.alike (.look peek rfl ?_)
  split
  · exact .pure suffix_rfl
  · refine ((readsPhrase_readExpr env).walk.agree state).bind fun _ middle walks => ?_
    have passed := walks.forward
    refine .eat (fun _ _ front _ => calls.since () ((drop_suffix ..).trans passed) ?_) (.pure passed)
    have shorter := State.length_advance front
    have le := passed.length_le
    omega

theorem declareParam_rest (kind : DeclKind) (scope : Nat) (type : SemType) (typeToken name : Token) (state : State) :
    Yields (declareParam kind scope type typeToken name) state fun _ after => after.rest = state.rest := by
  have declared : Yields (declare .param name type (typeToken.span.cover name.span) scope) state
      fun _ after => after.rest = state.rest := by
    unfold declare
    split
    · rfl
    · rw [yields_bind, yields_nextDecl, yields_bind, bindName, yields_bind, yields_get]
      split
      · rfl
      · rfl
  rw [declareParam, yields_bind]
  refine declared.mono fun found middle same => ?_
  split
  · split
    · exact same
    · exact same
  · exact same

theorem paramsRound_descends (kind : DeclKind) (scope : Nat) : Descends (paramsRound kind scope) := by
  intro call other state calls _
  have skipped (read : List ParamAt) {middle : State} (passed : Forward state middle) :
      Agree (do skipParams; return read) (do skipParams; return read) middle fun _ after => Forward state after :=
    (readsWalk_skipParams.agree middle).bind fun _ _ walks => .pure (walks.forward.trans passed)
  refine Agree.alike (.look peek rfl ?_)
  cases front : state.rest with
  | nil => exact .pure suffix_rfl
  | cons =>
    dsimp only [head?_cons]
    split
    · exact .report (skipped [] suffix_rfl)
    · have passed : Forward state (state.advance 1) := drop_suffix ..
      refine .bump (.look peek rfl ?_)
      split
      · exact .bind ⟨rfl, yields_reportHere.mpr suffix_rfl⟩ fun _ _ same => skipped [] (List.IsSuffix.trans same passed)
      · refine .bump (.bind ⟨rfl, declareParam_rest ..⟩ fun _ declared same => ?_)
        have named : Forward state declared := by
          rw [Forward, same]
          exact (drop_suffix ..).trans passed
        refine .eat (fun _ _ next _ => ?_) ?_
        · have behind : Forward state (declared.advance 1) := (drop_suffix ..).trans named
          refine (calls.since () behind ?_).bind fun more last passed => .pure passed
          have shorter := State.length_advance next
          have le := named.length_le
          omega
        · refine .expect (fun _ _ _ _ => .pure ((drop_suffix ..).trans named)) fun finding _ => skipped _ named

theorem handlersRound_descends (env : Env) (name : String) : Descends (handlersRound env name) := by
  intro call other state calls _
  refine Agree.alike (handlersRound_agree env name (fun first moves => ?_) fun runs ends => ?_)
  · exact calls.since () first.extends.suffix (first.extends.length_lt moves)
  · exact (drop_suffix ..).trans (Runs.extends Handler.extends runs).suffix

theorem itemsRound_descends (env : Env) : Descends (itemsRound env) := by
  intro call other state calls _
  refine Agree.alike (itemsRound_agree (fun first moves => ?_) fun _ => suffix_rfl)
  exact calls.since () first.extends.suffix (first.extends.length_lt moves)

/-! ## Counting braces -/

/-- How many tokens are a sign. -/
def signCount (sign : String) (tokens : List Token) : Nat := tokens.countP (·.isPunct sign)

theorem signCount_cons (sign : String) (token : Token) (tokens : List Token) :
    signCount sign (token :: tokens) = signCount sign tokens + if token.isPunct sign then 1 else 0 :=
  countP_cons

/-- Up to the brace that closes a group, each closing brace has more opening than closing ones before it. -/
theorem bodyLength_counts (depth : Nat) (tokens : List Token) {front back : List Token} {closing : Token}
    (split : tokens.take (bodyLength depth tokens) = front ++ closing :: back) :
    signCount "\x7d" front < depth + 1 + signCount "\x7b" front := by
  have first (depth : Nat) : signCount "\x7d" [] < depth + 1 + signCount "\x7b" [] := Nat.succ_pos depth
  fun_induction bodyLength depth tokens generalizing front with
  | case1 => cases front <;> cases split
  | case2 depth _ _ opens ih =>
    cases front with
    | nil => exact first depth
    | cons =>
      obtain ⟨rfl, same⟩ := List.cons.inj split
      have fewer := ih same
      rw [signCount_cons, signCount_cons, if_pos opens, if_neg (by rw [isPunct_eq opens]; decide)]
      omega
  | case3 =>
    cases front with
    | nil => exact first 0
    | cons => exact absurd (List.cons.inj split).2.symm (by simp)
  | case4 _ _ notOpening closes depth ih =>
    cases front with
    | nil => exact first (depth + 1)
    | cons =>
      obtain ⟨rfl, same⟩ := List.cons.inj split
      have fewer := ih same
      rw [signCount_cons, signCount_cons, if_neg notOpening, if_pos closes]
      omega
  | case5 depth _ _ notOpening notClosing ih =>
    cases front with
    | nil => exact first depth
    | cons =>
      obtain ⟨rfl, same⟩ := List.cons.inj split
      rw [signCount_cons, signCount_cons, if_neg notOpening, if_neg notClosing]
      exact ih same

/-- Skipping a group counts no closing brace before the opening one that it belongs to. -/
theorem skipTopLevel_counts (state : State) :
    Yields skipTopLevel state fun _ after => ∃ used, state.rest = used ++ after.rest ∧
      (state.rest.head?.any (·.isPunct "\x7b") → ∀ front closing back, used = front ++ closing :: back →
        closing.isPunct "\x7d" → signCount "\x7d" front < signCount "\x7b" front) := by
  rw [skipTopLevel, yields_bind, yields_get]
  cases ahead : state.rest with
  | nil => exact ⟨[], ahead.symm, fun opens => by cases opens⟩
  | cons token rest =>
    rw [yields_advance]
    refine ⟨(token :: rest).take (if token.isPunct "\x7b" then bodyLength 0 rest + 1 else 1), ?_, ?_⟩
    · rw [State.advance, ahead]
      exact (take_append_drop _ _).symm
    · intro opens front closing back split closes
      replace opens : token.isPunct "\x7b" := opens
      rw [if_pos opens] at split
      cases front with
      | nil =>
        obtain ⟨rfl, -⟩ := List.cons.inj split
        rw [isPunct_eq opens] at closes
        exact absurd closes (by decide)
      | cons =>
        obtain ⟨rfl, same⟩ := List.cons.inj split
        have fewer := bodyLength_counts 0 rest same
        rw [signCount_cons, signCount_cons, if_pos opens, if_neg (by rw [isPunct_eq opens]; decide)]
        omega

/-! ## The whole document -/

/-- Read a statement, without a bound on its depth. -/
def statementFrom (env : Env) : StatementReader := uncut (readStatementWithin env)

theorem statementFrom_terminates (env : Env) : Terminates (readStatementWith env) (statementFrom env) :=
  (readStatementWith_descends env).terminates (readStatementWithin_succ env)

theorem statements_terminate (env : Env) (opening : Span) :
    Terminates (statementsRound (statementFrom env) opening) (uncut (readStatements (statementFrom env) opening)) := by
  have parts (bound : Nat) : AgreeBelow Forward bound (statementFrom env) (statementFrom env) :=
    fun inBlock state _ => ⟨rfl, (statementFrom_terminates env).forward inBlock state⟩
  refine Descends.terminates (fun _ _ state calls returns => ?_) (fun _ => funext fun _ => rfl)
  refine Agree.alike (statementsRound_agree (forward_course env) (parts _) opening (Nat.lt_succ_self _) ?_ ?_ returns)
  · exact fun returns after fewer passed => calls.since returns passed fewer
  · exact fun last passed _ => (drop_suffix ..).trans passed

/-- The body of a callable is a block of statements without a bound on their depth. -/
theorem readBody_eq (env : Env) : readBody env = readBlock env (statementFrom env) := by
  funext state
  cases front : state.rest with
  | nil =>
    obtain ⟨rest, index⟩ := state
    cases front
    rfl
  | cons =>
    have parts : AlikeBelow state.rest.length (readStatementWithin env (state.rest.length + 1)) (statementFrom env) :=
      fun inBlock later fewer =>
        have alike := alike_rounds (readStatementWithin_succ env) (readStatementWith_descends env)
          (Nat.lt_succ_of_lt fewer) (Nat.lt_succ_self _) inBlock
        ⟨alike.same, alike.forward⟩
    exact (readBlock_agree (forward_course env) parts.agree front (Nat.lt_succ_self _)).same

/-- Everything that reads a document ends, and a document is read to its end. -/
structure Finishes (env : Env) : Prop where
  items : Terminates (itemsRound env) (uncut fun limit _ => readItems env limit)
  handlers : ∀ name, Terminates (handlersRound env name) (uncut fun limit _ => readHandlers env name limit)
  params : ∀ kind scope, Terminates (paramsRound kind scope) (uncut fun limit _ => readParams kind scope limit)
  block : ∀ opening,
    Terminates (statementsRound (statementFrom env) opening) (uncut (readStatements (statementFrom env) opening))
  header : ∀ close, Terminates (exprListRound env close) (uncut fun limit _ => readExprList env close limit)
  args : Terminates (argsRound (exprFrom env)) (uncut fun limit _ => readArgs (exprFrom env) limit)
  elements : Terminates (elementsRound (exprFrom env)) (uncut fun limit _ => readElements (exprFrom env) limit)
  components : Terminates (componentsRound (exprFrom env)) (uncut fun limit _ => readComponents (exprFrom env) limit)
  members : Terminates membersRound (uncut readMembers)
  operators : ∀ least, Terminates (climbRound (exprFrom env) least) (uncut (climb (exprFrom env) least))
  /-- Statements inside statements, and the body of a callable. -/
  statement : Terminates (readStatementWith env) (statementFrom env) ∧ readBody env = readBlock env (statementFrom env)
  /-- Expressions inside expressions. -/
  expr : Terminates (exprRound env) (exprFrom env) ∧ readExpr env = exprFrom env 0
  /-- A group that is skipped has an opening brace for each closing one. -/
  braces : ∀ state, Yields skipTopLevel state fun _ after => ∃ used, state.rest = used ++ after.rest ∧
    (state.rest.head?.any (·.isPunct "\x7b") = true → ∀ front closing back, used = front ++ closing :: back →
      closing.isPunct "\x7d" = true → signCount "\x7d" front < signCount "\x7b" front)
  ends : ∀ state, Yields (readDocument env) state fun _ after => after.rest = []

/-- Whatever the tokens, the definitions and what was preprocessed: reading a document ends. -/
theorem readDocument_finishes (env : Env) : Finishes env where
  items := (itemsRound_descends env).terminates fun _ => rfl
  handlers name := (handlersRound_descends env name).terminates fun _ => rfl
  params kind scope := (paramsRound_descends kind scope).terminates fun _ => rfl
  block := statements_terminate env
  header close := (exprListRound_descends env close).terminates fun _ => rfl
  args := args_terminate env
  elements := elements_terminate env
  components := components_terminate env
  members := members_terminate
  operators := climb_terminates env
  statement := ⟨statementFrom_terminates env, readBody_eq env⟩
  expr := ⟨exprFrom_terminates env, rfl⟩
  braces := skipTopLevel_counts
  ends state := (readDocument_runs state).mono fun _ _ ⟨_, _, _, _, done⟩ => done

end ScriptLint.Analysis
