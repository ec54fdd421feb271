import ScriptLint.Proofs.Bodies

/-!
# What reading a callable does

A function or a handler takes the declaration that was made for it in advance, or gets a new one, which a handler's name
is bound to in its state. Its parameters are declared in a scope of their own, around the block of its body. When the
body ends its jumps are given their labels, the scope is left, and the declaration is written again as a whole.
-/

namespace ScriptLint.Analysis

open TopLevel List

/-! ## Parameters -/

theorem plain_of_paramsLength (tokens : List Token) :
    ∀ token ∈ tokens.take (paramsLength tokens), isBrace token = false := by
  fun_induction paramsLength tokens with
  | case1 => exact nofun
  | case2 => exact nofun
  | case3 _ _ _ closes =>
    rw [take_succ_cons, take_zero, forall_mem_singleton]
    exact (isBrace_of_isPunct closes (by decide)).1
  | case4 _ _ other _ ih => exact forall_mem_cons.mpr ⟨by simpa [isBrace] using other, ih⟩

theorem readsWalk_skipParams : ReadsWalk skipParams := by
  intro state
  exact ⟨_, .take state _, plain_of_paramsLength state.rest⟩

variable {state before : State} {name : Token}

/-- A parameter is declared behind its name. Those of a handler are remembered. -/
theorem declareParam_bodies (env : Env) (kind : DeclKind) (type : SemType) {typeToken : Token} {rest : List Token}
    (front : state.rest = typeToken :: name :: rest) (typed : isBrace typeToken = false) (ident : name.isIdent) :
    Yields (declareParam kind state.arena.current type typeToken name) (state.advance 2) fun _ after =>
      Bodies env state after ∧ after.rest = rest ∧ after.arena.current = state.arena.current := by
  rw [declareParam, yields_bind]
  refine (declare_declares _ _ _ _ (state.advance 2)).mono fun found declared declares => ?_
  have behind : declared.rest = rest := by
    rw [declares.rest_eq, State.advance, front]
    rfl
  refine Yields.mono (?remembers : Yields _ declared fun _ after => Walk [] declared after) fun _ after walk =>
    ⟨?_, ?_, ?_⟩
  case remembers =>
    split
    · split
      · have nothing {p : Ref → Prop} : ∀ ref ∈ [], p ref := forall_mem_nil _
        exact ⟨⟨rfl, rfl, rfl, ⟨[], (append_nil _).symm, nothing⟩, prefix_rfl, fun _ => Nat.le_refl _⟩,
          forall_mem_nil _⟩
      · exact .refl declared
    · exact .refl declared
  · exact ⟨_, (declares.body (.inr rfl) front typed ident (.refl _) (.inl rfl)).trans (.walk walk)⟩
  · rw [← behind]
    exact walk.rest.symm
  · rw [walk.arena]
    cases declares <;> rfl

theorem typeOf?_eq_some {token : Token} {type : SemType} (typed : typeOf? token = some type) :
    token.isIdent ∧ SemType.ofKeyword? token.text = some type := by
  rw [typeOf?] at typed
  split at typed
  · next ident => exact ⟨ident, typed⟩
  · cases typed

theorem isBrace_of_typeOf? {token : Token} {type : SemType} (typed : typeOf? token = some type) :
    isBrace token = false :=
  isBrace_of_isIdent (typeOf?_eq_some typed).1

/-- The light scan reads a parameter that is written as it should be. -/
theorem scanParams_cons {typeToken : Token} {type : SemType} (rest : List Token)
    (typed : typeOf? typeToken = some type) (ident : name.isIdent) :
    scanParams (typeToken :: name :: rest) =
      (⟨name.text, type⟩ :: (scanParams (skipComma rest)).1,
        (scanParams (skipComma rest)).2) := by
  obtain ⟨isIdent, keyword⟩ := typeOf?_eq_some typed
  rw [scanParams.eq_def]
  simp only [(plain_of_isIdent isIdent).2, Bool.false_eq_true, if_false, keyword, ident, if_true]

theorem scanParams_close {closing : Token} (rest : List Token) (closes : closing.isPunct ")") :
    scanParams (closing :: rest) = ([], rest) := by
  rw [scanParams.eq_def]
  exact if_pos closes

theorem skipComma_of_isPunct {token : Token} {sign : String} (rest : List Token) (found : token.isPunct sign) :
    skipComma (token :: rest) = if sign = "," then rest else token :: rest := by
  rw [skipComma, isPunct_eq found]
  simp

/-- Parameters are declared one after the other. Unless something is malformed they are those of the light scan. -/
structure ParamsRead (env : Env) (before : State) (read : List ParamAt) (after : State) : Prop where
  bodies : Bodies env before after
  scanned : after.Clean → scanParams before.rest = (read.map ParamAt.param, after.rest)

/-- What is malformed is reported, and the rest of the list skipped. -/
theorem skipParams_reads {env : Env} {middle : State} {finding : Finding} (read : List ParamAt)
    (bodies : Bodies env before middle) (malformed : finding.problem.code = .malformed) :
    Yields (do skipParams; return read) (middle.report finding) (ParamsRead env before) := by
  rw [yields_bind]
  refine (readsWalk_skipParams _).mono fun _ after walks => ?_
  refine ⟨bodies.trans (((Walks.refl middle).report finding).trans walks).bodies, ?_⟩
  obtain ⟨used, skipped⟩ := walks
  exact fun clean => absurd (skipped.clean clean) (State.not_clean_report malformed)

theorem readParams_reads (env : Env) (kind : DeclKind) (limit : Nat) (enough : state.rest.length < limit) :
    Yields (readParams kind state.arena.current limit) state (ParamsRead env state) := by
  induction limit generalizing state with
  | zero => exact absurd enough (Nat.not_lt_zero _)
  | succ limit ih =>
    rw [readParams, yields_bind, yields_peek]
    cases front : state.rest with
    | nil =>
      have empty : scanParams state.rest = ([], state.rest) := by rw [front, scanParams]
      exact ⟨.refl state, fun _ => empty⟩
    | cons _ rest =>
      dsimp only [head?_cons]
      split
      · rw [yields_bind]
        exact skipParams_reads [] (.refl state) rfl
      · rename_i type typed
        have plain := isBrace_of_typeOf? typed
        have passed : Bodies env state (state.advance 1) := (bump_walks front plain).bodies
        have behind : (state.advance 1).rest = rest := by rw [State.advance, front]; rfl
        rw [yields_bind, yields_bump, yields_bind, yields_peek, behind]
        split
        · rw [yields_bind, yields_reportHere]
          exact skipParams_reads [] passed rfl
        · rename_i name named
          obtain ⟨first, ident⟩ := Option.filter_eq_some_iff.mp named
          obtain ⟨more, rfl⟩ := head?_eq_some_iff.mp first
          rw [yields_bind, yields_bump, State.advance_advance front, yields_bind]
          refine (declareParam_bodies env kind type front plain ident).mono fun _ declared made => ?_
          obtain ⟨body, rfl, same⟩ := made
          have scanned := scanParams_cons declared.rest typed ident
          rw [← front] at scanned
          rw [yields_bind, yields_eatPunct]
          split
          · rename_i comma
            obtain ⟨sign, more, next, isSign⟩ := exists_of_head?_any comma
            have onward : Bodies env declared (declared.advance 1) := (phrases_one comma (by decide)).walks.bodies
            have ahead : (declared.advance 1).rest = more := by rw [State.advance, next]; rfl
            have shorter : (declared.advance 1).rest.length < limit := by
              have less := State.length_advance next
              have total := congrArg List.length front
              simp only [length_cons] at total
              omega
            rw [if_pos rfl, yields_bind, ← same]
            refine (ih shorter).mono fun read after more => ?_
            refine ⟨(body.trans onward).trans more.bodies, fun clean => ?_⟩
            rw [scanned, next, skipComma_of_isPunct _ isSign, if_pos rfl, ← ahead, more.scanned clean]
            rfl
          · rw [if_neg Bool.false_ne_true, yields_bind, yields_expectPunct]
            split
            · rename_i closing
              obtain ⟨sign, more, next, isSign⟩ := exists_of_head?_any closing
              have onward : Bodies env declared (declared.advance 1) := (phrases_one closing (by decide)).walks.bodies
              have ahead : (declared.advance 1).rest = more := by rw [State.advance, next]; rfl
              have closed : scanParams state.rest = ([⟨name.text, type⟩], (declared.advance 1).rest) := by
                rw [scanned, next, skipComma_of_isPunct _ isSign, if_neg (by decide), scanParams_close more isSign,
                  ahead]
              exact ⟨body.trans onward, fun _ => closed⟩
            · exact skipParams_reads _ body rfl

/-- A parameter list is read from its parenthesis on. -/
theorem readParamList_reads (env : Env) (kind : DeclKind) {paren : Token} {rest : List Token}
    (front : state.rest = paren :: rest) (opens : paren.isPunct "(") :
    Yields (readParamList kind state.arena.current) state (ParamsRead env (state.advance 1)) := by
  have there : state.rest.head?.any (·.isPunct "(") := by rw [front]; exact opens
  rw [readParamList, yields_bind, yields_expectPunct, if_pos there]
  rw [if_neg (by decide), yields_bind, yields_eatPunct]
  split
  · rename_i empty
    obtain ⟨closing, more, next, closes⟩ := exists_of_head?_any empty
    have scanned : scanParams (state.advance 1).rest = ([], ((state.advance 1).advance 1).rest) := by
      rw [next, scanParams_close more closes, State.advance, next]
      rfl
    exact ⟨(phrases_one empty (by decide)).walks.bodies, fun _ => scanned⟩
  · exact readParams_reads env kind _ (Nat.lt_succ_self _)

/-! ## Declarations of callables -/

namespace State

variable (state : State)

/-- Declare a callable or a state by its name, in a scope. -/
def addHeader (kind : DeclKind) (type : SemType) (name : Token) (start scope : Nat) : State :=
  state.addDecl (headerDecl state.decls.size name.text kind type [] name.span start name.span.stop scope)

/-- The labels of the callable that is being read. -/
def labels : NameMap Nat := (state.callable.map Callable.labels).getD ∅

/-- The jumps of the callable that is being read. -/
def jumps : List Jump := (state.callable.map Callable.jumps).getD []

end State

/-- The declaration of a callable is the one made in advance for its name, or a new one. A handler of a state that has
none of its name yet is bound there. -/
inductive Slot (kind : DeclKind) (returns : SemType) (name : Token) (start : Nat) (before : State) :
    Nat → State → Prop where
  | known {id : Nat} (found : before.prototypes.lookup name.span.start = some id) :
      Slot kind returns name start before id before
  | fresh {after : State} (new : before.prototypes.lookup name.span.start = none)
      (made : Pass [] (before.addHeader kind returns name start before.arena.current) after) :
      Slot kind returns name start before before.decls.size after
  | bound (new : before.prototypes.lookup name.span.start = none) (isEvent : kind = .event)
      (free : before.arena.named? before.arena.current name.text = none) :
      Slot kind returns name start before before.decls.size
        ((before.addHeader kind returns name start before.arena.current).bind name.text before.decls.size)

theorem callableDecl_slots (kind : DeclKind) (returns : SemType) (name : Token) (start : Nat) (state : State) :
    Yields (callableDecl kind returns name start state.arena.current) state
      (Slot kind returns name start state) := by
  rw [callableDecl, yields_bind, yields_get]
  split
  · next id found => exact .known found
  · rename_i new
    rw [yields_bind, yields_nextDecl, yields_bind, pushDecl, yields_modify, yields_bind, yields_get]
    dsimp only
    split
    · rename_i handler
      obtain ⟨isEvent, _⟩ := Bool.and_eq_true_iff.mp handler
      rw [yields_bind, bindName, yields_bind, yields_get]
      split
      · exact .fresh new ((Pass.refl _).report _)
      · next free => exact .bound new (eq_of_beq isEvent) free
    · exact .fresh new (.refl _)

theorem Slot.extends {kind : DeclKind} {returns : SemType} {start id : Nat} {after : State}
    (slot : Slot kind returns name start before id after) : Extends [] before after := by
  cases slot with
  | known => exact .refl before
  | fresh _ made => exact (Extends.addDecl ..).trans (.pass made)
  | bound => exact (Extends.addDecl ..).trans (.bind ..)

theorem Slot.rest {kind : DeclKind} {returns : SemType} {start id : Nat} {after : State}
    (slot : Slot kind returns name start before id after) : after.rest = before.rest :=
  slot.extends.rest.symm

/-! ## Jumps -/

/-- Some jumps were given their labels, and nothing else was changed. -/
structure Resolved (labels : NameMap Nat) (jumps : List Jump) (before after : State) : Prop where
  rest : after.rest = before.rest
  prevEnd : after.prevEnd = before.prevEnd
  declared : after.declared = before.declared
  findings : before.findings.toList <+: after.findings.toList
  size : after.refs.size = before.refs.size
  refs : ∀ {index ref}, after.refs[index]? = some ref →
    before.refs[index]? = some ref ∨
      ∃ jump ∈ jumps, jump.ref = index ∧ ∃ id old, labels.get? jump.name = some id ∧
        before.refs[index]? = some old ∧ ref = { old with target := .decl id }

namespace Resolved

variable {labels : NameMap Nat} {jumps more : List Jump} {before middle after : State}

theorem refl (state : State) : Resolved labels [] state state :=
  ⟨rfl, rfl, rfl, prefix_rfl, rfl, .inl⟩

section

variable (resolved : Resolved labels jumps before after)

include resolved

theorem arena : after.arena = before.arena := congrArg Declared.arena resolved.declared

theorem decls : after.decls = before.decls := congrArg Declared.decls resolved.declared

end

theorem trans (first : Resolved labels jumps before middle) (second : Resolved labels more middle after) :
    Resolved labels (jumps ++ more) before after where
  rest := second.rest.trans first.rest
  prevEnd := second.prevEnd.trans first.prevEnd
  declared := second.declared.trans first.declared
  findings := first.findings.trans second.findings
  size := second.size.trans first.size
  refs := by
    intro index ref found
    rcases second.refs found with same | ⟨jump, isJump, place, id, old, known, there, rfl⟩
    · rcases first.refs same with same | ⟨jump, isJump, rest⟩
      · exact .inl same
      · exact .inr ⟨jump, mem_append_left more isJump, rest⟩
    · refine .inr ⟨jump, mem_append_right jumps isJump, place, id, ?_⟩
      -- A reference that was given a label before is given another one.
      rcases first.refs there with same | ⟨_, _, _, _, older, _, same, rfl⟩
      · exact ⟨old, known, same, rfl⟩
      · exact ⟨older, known, same, rfl⟩

end Resolved

theorem Extends.resolved {labels : NameMap Nat} {jumps : List Jump} {after : State}
    (resolved : Resolved labels jumps before after) : Extends [] before after where
  rest := resolved.rest.symm
  prevEnd := resolved.prevEnd
  states := congrArg Declared.states resolved.declared
  functions := congrArg Declared.functions resolved.declared
  prototypes := congrArg Declared.prototypes resolved.declared
  findings := resolved.findings
  size := Nat.le_of_eq (congrArg (fun declared => declared.arena.scopes.size) resolved.declared.symm)
  names found := by rwa [resolved.arena]
  opened _ := congrArg (fun declared => declared.arena.opened) resolved.declared

theorem resolveJump_resolves (labels : NameMap Nat) (jump : Jump) (state : State) :
    Yields (resolveJump labels jump) state fun _ after => Resolved labels [jump] state after := by
  rw [resolveJump]
  split
  · rename_i id known
    rw [yields_modify]
    refine ⟨rfl, rfl, rfl, prefix_rfl, Array.size_modify, fun {index ref} found => ?_⟩
    rw [Array.getElem?_modify] at found
    split at found
    · rename_i place
      obtain ⟨old, there, rfl⟩ := Option.map_eq_some_iff.mp found
      exact .inr ⟨jump, mem_singleton_self jump, place, id, old, known, there, rfl⟩
    · exact .inl found
  · exact ⟨rfl, rfl, rfl, ((Pass.refl _).report _).findings, rfl, .inl⟩

theorem resolveJumps_resolves (callable : Option Callable) (state : State) :
    Yields (resolveJumps callable) state fun _ after =>
      Resolved (state.within callable).labels (state.within callable).jumps state after := by
  have all (labels : NameMap Nat) (jumps : List Jump) (state : State) :
      Yields (jumps.forM (resolveJump labels)) state fun _ after => Resolved labels jumps state after := by
    induction jumps generalizing state with
    | nil => exact .refl state
    | cons jump jumps ih =>
      change Yields (resolveJump labels jump >>= fun _ => jumps.forM (resolveJump labels)) state _
      rw [yields_bind]
      refine (resolveJump_resolves labels jump state).mono fun _ middle first => ?_
      exact (ih middle).mono fun _ _ more => first.trans more
  cases callable with
  | none => exact .refl state
  | some callable => exact all callable.labels callable.jumps state

/-! ## Callables -/

/-- The header of a callable is read from its parenthesis on. Its parameters are declared in a new scope. -/
inductive HeaderRun (env : Env) (kind : DeclKind) (returns : SemType) (name : Token) (start : Nat) :
    List Token → State → Nat → List Param → Nat → State → Prop where
  | mk {used rest : List Token} {before chosen after : State} {paren : Token} {id : Nat} {params : List Param}
      (slot : Slot kind returns name start before id chosen) (front : chosen.rest = paren :: rest)
      (opens : paren.isPunct "(" = true) (body : Body env used (chosen.enter env .params) after)
      (scanned : after.Clean → scanParams rest = (params, after.rest)) :
      HeaderRun env kind returns name start (paren :: used) before id params chosen.arena.scopes.size after

/-- A callable is read from its parenthesis on, with its body or without one. -/
inductive CallableRun (env : Env) (kind : DeclKind) (returns : SemType) (name : Token) (start : Nat) :
    List Token → State → State → Prop where
  | body {used inside rest : List Token} {before headed middle resolved last : State} {id scope : Nat}
      {params : List Param} {opening : Token} {callable : Callable}
      (header : HeaderRun env kind returns name start used before id params scope headed)
      (front : headed.rest = opening :: rest) (opens : opening.isPunct "\x7b" = true)
      (fresh : callable.labels = ∅ ∧ callable.jumps = [])
      (inner : Body env inside ((headed.within (some callable)).enter env .block) middle) (ends : middle.AtEnd)
      (jumps : Resolved middle.labels middle.jumps
        (((middle.advance 1).leave headed.arena.scopes.size).within headed.callable) resolved)
      (reported : Pass [] resolved last) :
      CallableRun env kind returns name start (used ++ opening :: (inside ++ middle.rest.take 1)) before
        ((last.leave scope).setDecl id fun _ =>
          headerDecl id name.text kind returns params name.span start last.prevEnd before.arena.current)
  | missing {used behind : List Token} {before headed last : State} {id scope : Nat} {params : List Param}
      (header : HeaderRun env kind returns name start used before id params scope headed)
      (skipped : Walk behind (headed.leave scope) last) (settled : Settled behind last.rest) (broken : ¬last.Clean) :
      CallableRun env kind returns name start (used ++ behind) before
        (last.setDecl id fun _ =>
          headerDecl id name.text kind returns params name.span start headed.prevEnd before.arena.current)

theorem Extends.callableBody {env : Env} {inside rest : List Token} {headed middle resolved last : State}
    {opening : Token} {callable : Callable} {labels : NameMap Nat} {jumps : List Jump}
    (front : headed.rest = opening :: rest)
    (inner : Body env inside ((headed.within (some callable)).enter env .block) middle)
    (patched : Resolved labels jumps (((middle.advance 1).leave headed.arena.scopes.size).within headed.callable)
      resolved)
    (reported : Pass [] resolved last) : Extends (opening :: (inside ++ middle.rest.take 1)) headed last := by
  have block : Extends (opening :: (inside ++ middle.rest.take 1)) headed
      ((middle.advance 1).leave headed.arena.scopes.size) :=
    (Extends.within (some callable) headed).trans ((inner.extends.trans (.pass (.take middle 1))).leave front)
  exact block.andThen (((Extends.within headed.callable _).trans (.resolved patched)).trans (.pass reported))

section Extents

variable {env : Env} {kind : DeclKind} {returns : SemType} {start : Nat} {used behind : List Token} {after : State}

/-- What is read behind a header is read in the scope of its parameters. -/
theorem HeaderRun.extends {id scope : Nat} {params : List Param} {headed last : State}
    (header : HeaderRun env kind returns name start used before id params scope headed)
    (onward : Extends behind headed last) : Extends (used ++ behind) before (last.leave scope) := by
  cases header with
  | mk slot front _ params => exact slot.extends.trans ((params.extends.trans onward).leave front)

theorem CallableRun.extends (run : CallableRun env kind returns name start used before after) :
    Extends used before after := by
  cases run with
  | body header front _ _ inner _ jumps reported =>
    exact (header.extends (.callableBody front inner jumps reported)).andThen (.setDecl ..)
  | missing header skipped =>
    have left := header.extends (.refl _)
    rw [append_nil] at left
    exact (left.trans (.pass skipped.toPass)).andThen (.setDecl ..)

end Extents

theorem checkHandler_walks (env : Env) (kind : DeclKind) (type : Option SemType) (name : Token)
    (params : List ParamAt) (state : State) :
    Yields (checkHandler env kind type name params) state fun _ after => Walk [] state after := by
  have noted (finding : Option Finding) {before : State} (walk : Walk [] state before) :
      Yields (note finding) before fun _ after => Walk [] state after := by
    cases finding with
    | none => exact walk
    | some finding => exact walk.report finding
  rw [checkHandler]
  split
  · dsimp only
    split
    · exact noted _ ((Walk.refl state).report _)
    · exact noted _ (.refl state)
  · exact .refl state

/-- A callable's body is read up to its end, and its jumps are resolved there. -/
theorem readCallableBody_runs (env : Env) (kind : DeclKind) (returns : SemType) (name : Token) {opening : Token}
    {rest : List Token} (front : state.rest = opening :: rest) :
    Yields (readCallableBody env kind returns name) state fun stop after =>
      ∃ callable inside middle resolved,
        (callable.labels = ∅ ∧ callable.jumps = []) ∧
          Body env inside ((state.within (some callable)).enter env .block) middle ∧ middle.AtEnd ∧
          Resolved middle.labels middle.jumps
            (((middle.advance 1).leave state.arena.scopes.size).within state.callable) resolved ∧
          Pass [] resolved after ∧ stop = after.prevEnd := by
  let callable : Callable := { returns, isEvent := kind == .event, name := name.text }
  have opened : (state.within (some callable)).rest = opening :: rest := front
  rw [readCallableBody, yields_bind, yields_exchangeCallable, yields_bind]
  refine (readBody_bodies env opened).mono fun always done ended => ?_
  obtain ⟨inside, middle, inner, ends, rfl⟩ := ended
  rw [yields_bind, yields_prevEnd, yields_bind, yields_exchangeCallable, yields_bind]
  refine (resolveJumps_resolves _ _).mono fun _ resolved jumps => ?_
  have stop := jumps.prevEnd.symm
  split
  · exact ⟨callable, inside, middle, resolved, ⟨rfl, rfl⟩, inner, ends, jumps, (Pass.refl resolved).report _, stop⟩
  · exact ⟨callable, inside, middle, resolved, ⟨rfl, rfl⟩, inner, ends, jumps, .refl resolved, stop⟩

/-- Skipping a missing body does not touch the scopes, so the parameters' scope could as well be left before. -/
theorem skipMissingBody_runs (scope : Nat) (absent : state.rest.head?.any (·.isPunct "\x7b") = false) :
    Yields skipMissingBody state fun stop after => stop = state.prevEnd ∧
      ∃ behind last, Walk behind (state.leave scope) last ∧ Settled behind last.rest ∧ ¬last.Clean ∧
        { after with arena := after.arena.popTo scope stop } = last := by
  rw [skipMissingBody, yields_bind, yields_prevEnd, yields_bind, yields_discard, yields_expectPunct, absent,
    if_neg Bool.false_ne_true, yields_bind, recover, yields_bind, yields_get, yields_advance, yields_pure]
  let finding : Finding := ⟨.expected "\x7b" "to open the body" (state.rest.head?.map Token.text), state.place⟩
  let left := (state.leave scope).report finding
  have walk := ((Walk.refl (state.leave scope)).report finding).trans
    (show Walk _ left _ from ⟨.take left _, plain_of_recoveryLength 0 left.rest⟩)
  exact ⟨rfl, _, _, walk, settled_recoveryLength 0 left.rest, State.not_clean_report rfl, rfl⟩

theorem readCallable_runs (env : Env) (kind : DeclKind) (type : Option SemType) (name : Token) (start : Nat)
    {paren : Token} {rest : List Token} (front : state.rest = paren :: rest) (opens : paren.isPunct "(") :
    Yields (readCallable env kind type name start) state fun _ after =>
      ∃ used, CallableRun env kind (type.getD .void) name start used state after := by
  rw [readCallable, yields_bind, yields_currentScope]
  rw [yields_bind]
  refine (callableDecl_slots kind (type.getD .void) name start state).mono fun id chosen slot => ?_
  have opening := slot.rest.trans front
  let entered : State := { chosen with arena := chosen.arena.push .params chosen.place.start env.length }
  have reads := readParamList_reads env kind (show entered.rest = _ from opening) opens
  rw [yields_bind, yields_here, yields_bind, yields_openScope, yields_bind]
  refine reads.mono fun params listed read => ?_
  rw [yields_bind]
  refine (checkHandler_walks env kind type name params listed).mono fun _ headed checked => ?_
  have header : ∃ used, HeaderRun env kind (type.getD .void) name start used state id (params.map ParamAt.param)
      chosen.arena.scopes.size headed := by
    obtain ⟨used, body⟩ := read.bodies
    refine ⟨_, .mk slot opening opens (body.trans (.walk checked)) fun clean => ?_⟩
    have scanned := read.scanned (checked.clean clean)
    have kept := checked.rest
    change scanParams (chosen.rest.drop 1) = _ at scanned
    rw [opening, kept] at scanned
    exact scanned
  obtain ⟨used, header⟩ := header
  rw [yields_bind, yields_atPunct]
  split
  · rename_i there
    obtain ⟨brace, more, next, isOpening⟩ := exists_of_head?_any there
    rw [yields_bind]
    refine (readCallableBody_runs env kind (type.getD .void) name next).mono fun stop last ran => ?_
    obtain ⟨callable, inside, middle, resolved, fresh, inner, ends, jumps, reported, rfl⟩ := ran
    exact ⟨_, .body header next isOpening fresh inner ends jumps reported⟩
  · rename_i absent
    rw [yields_bind]
    refine (skipMissingBody_runs chosen.arena.scopes.size (Bool.eq_false_iff.mpr absent)).mono
      fun stop after skipped => ?_
    obtain ⟨rfl, behind, last, walk, settled, broken, closed⟩ := skipped
    rw [yields_bind, closeScope, yields_modify, closed]
    exact ⟨_, .missing header walk settled broken⟩

end ScriptLint.Analysis
