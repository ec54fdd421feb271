import ScriptLint.Proofs.Callables

/-!
# What reading a document does

A document is read item by item: variables, callables, states with their handlers, and what is none of these, which is
skipped. Whatever the tokens are, an item ends where the next one can begin: behind a token that is no name, in front of
a brace, or at the end. Braces are balanced in each item unless the document ends in it.
-/

namespace ScriptLint.TopLevel

open Analysis List

/-! ## Skipping bodies -/

variable {opening closing : Token} {used rest : List Token}

theorem skipBody_of_plain (plain : ∀ token ∈ used, isBrace token = false) (depth : Nat) :
    skipBody depth (used ++ rest) = skipBody depth rest := by
  induction used with
  | nil => rfl
  | cons _ _ ih =>
    obtain ⟨notBrace, plain⟩ := forall_mem_cons.mp plain
    obtain ⟨notOpen, notClose⟩ := Bool.or_eq_false_iff.mp notBrace
    rw [cons_append, skipBody.eq_def]
    dsimp only
    rw [notOpen, notClose]
    exact ih plain

theorem skipBody_opening (opens : opening.isPunct "\x7b") (depth : Nat) :
    skipBody depth (opening :: rest) = skipBody (depth + 1) rest := by
  exact if_pos opens

theorem skipBody_closing (closes : closing.isPunct "\x7d") (depth : Nat) :
    skipBody (depth + 1) (closing :: rest) = skipBody depth rest ∧ skipBody 0 (closing :: rest) = rest := by
  have notOpen : ¬closing.isPunct "\x7b" := by
    rw [isPunct_eq closes]
    decide
  constructor <;> rw [skipBody.eq_def] <;> dsimp only <;> rw [if_neg notOpen, if_pos closes]

end ScriptLint.TopLevel

namespace ScriptLint.Analysis

open TopLevel List

/-! ## Braces -/

/-- How many braces are open behind some tokens. One that closes nothing does not count. -/
def braceDepth : (depth : Nat) → List Token → Nat
  | depth, [] => depth
  | depth, token :: rest =>
    if token.isPunct "\x7b" then braceDepth (depth + 1) rest
    else if token.isPunct "\x7d" then braceDepth (depth - 1) rest
    else braceDepth depth rest

theorem braceDepth_append (depth : Nat) (tokens more : List Token) :
    braceDepth depth (tokens ++ more) = braceDepth (braceDepth depth tokens) more := by
  induction tokens generalizing depth with
  | nil => rfl
  | cons _ _ ih =>
    rw [cons_append, braceDepth, braceDepth]
    split
    · exact ih _
    · split
      · exact ih _
      · exact ih _

theorem braceDepth_of_plain {tokens : List Token} (plain : ∀ token ∈ tokens, isBrace token = false) (depth : Nat) :
    braceDepth depth tokens = depth := by
  induction tokens with
  | nil => rfl
  | cons _ _ ih =>
    obtain ⟨plainFirst, plainLater⟩ := forall_mem_cons.mp plain
    obtain ⟨notOpening, notClosing⟩ := Bool.or_eq_false_iff.mp plainFirst
    rw [braceDepth, notOpening, notClosing]
    exact ih plainLater

theorem braceDepth_opening {opening : Token} (opens : opening.isPunct "\x7b") (depth : Nat)
    (tokens : List Token) : braceDepth depth (opening :: tokens) = braceDepth (depth + 1) tokens := by
  rw [braceDepth, if_pos opens]

theorem braceDepth_closing {closing : Token} (closes : closing.isPunct "\x7d") (depth : Nat)
    (tokens : List Token) : braceDepth depth (closing :: tokens) = braceDepth (depth - 1) tokens := by
  rw [braceDepth, if_neg (by rw [isPunct_eq closes]; decide), if_pos closes]

/-- The light scan comes out of some tokens on the level where it goes in, and their braces are balanced, unless nothing
is left behind them. -/
structure Nested (used rest : List Token) : Prop where
  level : ∀ depth, skipBody depth (used ++ rest) = skipBody depth rest
  balanced : rest = [] ∨ ∀ depth, braceDepth depth used = depth

variable {used : List Token} {env : Env} {before after state : State}

theorem Nested.append {more middle rest : List Token} (first : Nested used middle) (second : Nested more rest)
    (whole : middle = more ++ rest) : Nested (used ++ more) rest := by
  refine ⟨fun depth => ?_, ?_⟩
  · rw [append_assoc, ← whole, first.level, whole, second.level]
  · rcases first.balanced with none | balanced
    · rw [none] at whole
      exact .inl (append_eq_nil_iff.mp whole.symm).2
    · refine second.balanced.imp_right fun balancedMore depth => ?_
      rw [braceDepth_append, balanced, balancedMore]

theorem nested_of_plain (plain : ∀ token ∈ used, isBrace token = false) (rest : List Token) : Nested used rest :=
  ⟨skipBody_of_plain plain, .inr (braceDepth_of_plain plain)⟩

/-- A body ends with its closing brace, or with the document. -/
theorem State.AtEnd.skipBody {middle : State} (ends : middle.AtEnd) :
    skipBody 0 middle.rest = middle.rest.drop 1 ∧
      ∀ depth, skipBody (depth + 1) middle.rest = skipBody depth (middle.rest.drop 1) := by
  rcases ends with none | ⟨closing, rest, front, closes⟩
  · rw [none]
    exact ⟨rfl, fun _ => rfl⟩
  · rw [front]
    exact ⟨(skipBody_closing closes 0).2, fun depth => (skipBody_closing closes depth).1⟩

/-- A block is closed, or the document ends inside it. -/
theorem nested_block {opening : Token} {middle : State} (opens : opening.isPunct "\x7b")
    (inner : Nested used middle.rest) (ends : middle.AtEnd) :
    Nested (opening :: (used ++ middle.rest.take 1)) (middle.rest.drop 1) := by
  refine ⟨fun depth => ?_, ?_⟩
  · rw [cons_append, append_assoc, take_append_drop, skipBody_opening opens, inner.level, ends.skipBody.2]
  · rcases ends with none | ⟨closing, rest, front, closes⟩
    · exact .inl (by rw [none]; rfl)
    · rcases inner.balanced with none | balanced
      · exact absurd (front.symm.trans none) (cons_ne_nil closing rest)
      · refine .inr fun depth => ?_
        rw [braceDepth_opening opens, braceDepth_append, balanced, front]
        exact braceDepth_closing closes (depth + 1) []

theorem Body.nested (body : Body env used before after) : Nested used after.rest := by
  induction body with
  | walk walk => exact nested_of_plain walk.plain _
  | trans _ second ihFirst ihSecond => exact ihFirst.append ihSecond second.extends.rest
  | declare _ _ _ _ typed ident value =>
    refine nested_of_plain (forall_mem_cons.mpr ⟨typed, forall_mem_cons.mpr ⟨?_, value.plain⟩⟩) _
    exact isBrace_of_isIdent ident
  | label _ plain ident | jump _ plain ident => exact nested_of_plain (by simp [plain, isBrace_of_isIdent ident]) _
  | block _ opens _ ends ih => exact nested_block opens ih ends
  | loop _ plain _ ih => exact (nested_of_plain (forall_mem_singleton.mpr plain) _).append ih rfl

/-- A group in braces is skipped up to its end, or to the end of the document. -/
theorem nested_bodyLength (depth : Nat) (tokens : List Token) :
    (∀ outer, skipBody (outer + depth + 1) tokens =
      skipBody outer (tokens.drop (bodyLength depth tokens))) ∧
    (tokens.drop (bodyLength depth tokens) = [] ∨
      ∀ outer, braceDepth (outer + depth + 1) (tokens.take (bodyLength depth tokens)) = outer) := by
  fun_induction bodyLength depth tokens with
  | case1 => exact ⟨fun _ => rfl, .inl rfl⟩
  | case2 _ _ _ opens ih =>
    refine ⟨fun outer => (skipBody_opening opens _).trans (ih.1 outer), ih.2.imp_right fun balanced outer => ?_⟩
    rw [take_succ_cons, braceDepth_opening opens]
    exact balanced outer
  | case3 _ _ _ closes =>
    refine ⟨fun outer => (skipBody_closing closes outer).1, .inr fun outer => ?_⟩
    rw [take_succ_cons, braceDepth_closing closes]
    rfl
  | case4 _ _ _ closes _ ih =>
    refine ⟨fun outer => (skipBody_closing closes _).1.trans (ih.1 outer), ih.2.imp_right fun balanced outer => ?_⟩
    rw [take_succ_cons, braceDepth_closing closes]
    exact balanced outer
  | case5 _ token _ notOpening notClosing ih =>
    have plain : ∀ other ∈ [token], isBrace other = false := by simp [isBrace, notOpening, notClosing]
    refine ⟨fun outer => (skipBody_of_plain plain _).trans (ih.1 outer), ih.2.imp_right fun balanced outer => ?_⟩
    rw [take_succ_cons, braceDepth, if_neg notOpening, if_neg notClosing]
    exact balanced outer

theorem settled_bodyLength (depth : Nat) (tokens : List Token) :
    Settled (tokens.take (bodyLength depth tokens)) (tokens.drop (bodyLength depth tokens)) := by
  fun_induction bodyLength depth tokens with
  | case1 => exact .inl rfl
  | case2 depth token rest _ ih | case4 token rest _ _ depth ih | case5 depth token rest _ _ ih =>
    exact ih.prepend [token]
  | case3 _ rest _ closes => exact settled_of_isPunct closes rest

theorem skipTopLevel_group (opens : state.rest.head?.any (·.isPunct "\x7b")) :
    Yields skipTopLevel state fun _ after => ∃ used, Pass used state after ∧ used ≠ [] ∧ Nested used after.rest ∧
      Settled used after.rest := by
  obtain ⟨opening, rest, front, isOpening⟩ := exists_of_head?_any opens
  rw [skipTopLevel, yields_bind, yields_get, front]
  dsimp only
  rw [if_pos isOpening, yields_advance]
  have pass := Pass.take state (bodyLength 0 rest + 1)
  have behind : (state.advance (bodyLength 0 rest + 1)).rest = rest.drop (bodyLength 0 rest) := by
    rw [State.advance, front]
    rfl
  rw [front, take_succ_cons] at pass
  refine ⟨_, pass, cons_ne_nil _ _, ?_, ?_⟩
  · obtain ⟨level, balanced⟩ := nested_bodyLength 0 rest
    rw [behind]
    refine ⟨fun depth => ?_, balanced.imp_right fun balanced depth => ?_⟩
    · rw [cons_append, take_append_drop, skipBody_opening isOpening]
      exact level depth
    · rw [braceDepth_opening isOpening]
      exact balanced depth
  · rw [behind]
    exact (settled_bodyLength 0 rest).prepend [opening]

/-! ## Handlers -/

/-- Steps one after the other, with the tokens that they pass over. -/
inductive Runs (step : List Token → State → State → Prop) : List Token → State → State → Prop where
  | done (state : State) : Runs step [] state state
  | more {used later : List Token} {before middle after : State} (first : step used before middle)
      (rest : Runs step later middle after) : Runs step (used ++ later) before after

/-- What every step preserves, given the tokens that were read before, a run preserves. -/
theorem Runs.preserves {step : List Token → State → State → Prop} {holds : List Token → State → Prop}
    (keeps : ∀ {read used before after}, step used before after → holds read before → holds (read ++ used) after)
    {read : List Token} (runs : Runs step used before after) (first : holds read before) :
    holds (read ++ used) after := by
  induction runs generalizing read with
  | done => rwa [append_nil]
  | more step _ ih =>
    rw [← append_assoc]
    exact ih (keeps step first)

/-- What reading one piece of a state's body can do. -/
inductive Handler (env : Env) : List Token → State → State → Prop where
  /-- What is no handler is reported and skipped. -/
  | skip {used : List Token} {before after : State} (pass : Pass used before after) (broken : ¬after.Clean)
      (nested : Nested used after.rest) (settled : Settled used after.rest) : Handler env used before after
  | handler {used : List Token} {before after : State} {name paren : Token} {rest : List Token}
      (front : before.rest = name :: paren :: rest) (ident : name.isIdent = true) (opens : paren.isPunct "(" = true)
      (run : CallableRun env .event .void name name.span.start used (before.advance 1) after) :
      Handler env (name :: used) before after

theorem Handler.extends (handler : Handler env used before after) : Extends used before after := by
  cases handler with
  | skip pass => exact .pass pass
  | handler front _ _ run => exact (Extends.pass (.one front)).trans run.extends

theorem Runs.extends {step : List Token → State → State → Prop}
    (steps : ∀ {used before after}, step used before after → Extends used before after)
    (runs : Runs step used before after) : Extends used before after := by
  induction runs with
  | done state => exact .refl state
  | more first _ ih => exact (steps first).trans ih

theorem recoveryLength_pos {token : Token} (plain : isBrace token = false) (rest : List Token) :
    0 < recoveryLength 0 (token :: rest) := by
  rw [recoveryLength]
  split
  · exact Nat.succ_pos _
  · split
    · exact Nat.succ_pos _
    · split
      · exact Nat.one_pos
      · rw [isBrace] at plain
        rw [plain]
        exact Nat.succ_pos _

/-- One handler of a state. -/
def handlersRound (env : Env) (state : String) (call : Unit → Scan Unit) (_ : Unit) : Scan Unit := do
  match (← get).rest with
  | [] => report (.stateNotClosed state) (.empty env.length)
  | token :: rest =>
    if token.isPunct "\x7d" then bump
    else
      if token.isIdent && rest.head?.any (·.isPunct "(") then
        bump
        readCallable env .event none token token.span.start
      else
        report (.expectedHandler state token.text) token.span
        if !token.isPunct "\x7b" then recover
        if ← atPunct "\x7b" then skipTopLevel
      call ()

/-- What is no handler is skipped: what comes up to the next brace, and a group in braces. -/
theorem skipHandler_agree {token : Token} {rest : List Token} {next nextOther : Scan Unit} {post : Unit → State → Prop}
    (front : state.rest = token :: rest) (notClosing : token.isPunct "\x7d" = false)
    (onward : ∀ {used after}, Pass used state after → used ≠ [] → Nested used after.rest → Settled used after.rest →
      Agree next nextOther after post) :
    Agree (do if !token.isPunct "\x7b" then recover
              if ← atPunct "\x7b" then skipTopLevel
              next)
      (do if !token.isPunct "\x7b" then recover
          if ← atPunct "\x7b" then skipTopLevel
          nextOther) state post := by
  have group {state : State} (there : state.rest.head?.any (·.isPunct "\x7b")) :
      Agree skipTopLevel skipTopLevel state _ := ⟨rfl, skipTopLevel_group there⟩
  by_cases opens : token.isPunct "\x7b"
  · have there : state.rest.head?.any (·.isPunct "\x7b") := by rw [front]; exact opens
    rw [opens]
    refine .look (atPunct "\x7b") rfl ?_
    rw [there]
    refine (group there).bind fun _ after skipped => ?_
    obtain ⟨used, pass, moves, nested, settled⟩ := skipped
    exact onward pass moves nested settled
  · have plain : isBrace token = false := by
      rw [isBrace, Bool.eq_false_iff.mpr opens, notClosing]
      rfl
    have pass := Pass.take state (recoveryLength 0 state.rest)
    have plainUsed := plain_of_recoveryLength 0 state.rest
    have moves : state.rest.take (recoveryLength 0 state.rest) ≠ [] := by
      have positive := recoveryLength_pos plain rest
      rw [front]
      intro none
      rcases take_eq_nil_iff.mp none with zero | empty
      · omega
      · cases empty
    rw [Bool.eq_false_iff.mpr opens]
    have recovers : Agree recover recover state fun _ after => after = state.advance (recoveryLength 0 state.rest) :=
      ⟨rfl, rfl⟩
    refine recovers.bind fun _ middle same => .look (atPunct "\x7b") rfl ?_
    subst same
    split
    · next there =>
      refine (group there).bind fun _ after skipped => ?_
      obtain ⟨used, group, _, nested, settled⟩ := skipped
      exact onward (pass.trans group) (fun none => moves (append_eq_nil_iff.mp none).1)
        ((nested_of_plain plainUsed _).append nested group.rest) (settled.prepend _)
    · exact onward pass moves (nested_of_plain plainUsed _) (settled_recoveryLength 0 state.rest)

/-- Handlers are read one after the other. Each takes at least one token. -/
theorem handlersRound_agree (env : Env) (name : String) {call callOther : Unit → Scan Unit} {post : State → Prop}
    (calls : ∀ {used middle}, Handler env used state middle → used ≠ [] →
      Agree (call ()) (callOther ()) middle fun _ last => post last)
    (ends : ∀ {used middle}, Runs (Handler env) used state middle → middle.AtEnd → post (middle.advance 1)) :
    Agree (handlersRound env name call ()) (handlersRound env name callOther ()) state fun _ last => post last := by
  refine .look get rfl ?_
  cases front : state.rest with
  | nil =>
    let finding : Finding := ⟨.stateNotClosed name, .empty env.length⟩
    have reported : (state.report finding).rest = [] := front
    have skip : Handler env [] state (state.report finding) :=
      .skip ((Pass.refl state).report finding) (State.not_clean_report rfl) ⟨fun _ => rfl, .inl reported⟩
        (.inl reported)
    have done := ends (.more skip (.done _)) (.inl reported)
    rw [State.advance_nil reported] at done
    exact ⟨rfl, done⟩
  | cons token rest =>
    dsimp only
    split
    · next closes => exact ⟨rfl, ends (.done state) (.inr ⟨token, rest, front, closes⟩)⟩
    · next notClosing =>
      split
      · next handler =>
        obtain ⟨ident, paren⟩ := Bool.and_eq_true_iff.mp handler
        obtain ⟨opening, more, rfl, opens⟩ := exists_of_head?_any paren
        have behind : (state.advance 1).rest = opening :: more := by rw [State.advance, front]; rfl
        have read : Agree (readCallable env .event none token token.span.start)
            (readCallable env .event none token token.span.start) (state.advance 1) _ :=
          ⟨rfl, readCallable_runs env .event none token token.span.start behind opens⟩
        refine .bump (read.bind fun _ middle ran => ?_)
        obtain ⟨used, run⟩ := ran
        exact calls (.handler front ident opens run) (cons_ne_nil _ _)
      · let finding : Finding := ⟨.expectedHandler name token.text, token.span⟩
        have ahead : (state.report finding).rest = token :: rest := front
        refine .report (skipHandler_agree ahead (Bool.eq_false_iff.mpr notClosing) fun pass moves nested settled => ?_)
        have reported := ((Pass.refl state).report finding).trans pass
        exact calls (.skip reported (fun clean => State.not_clean_report rfl (pass.clean clean)) nested settled) moves

/-- Handlers are read up to a closing brace, or to the end of the document. -/
theorem readHandlers_runs (env : Env) (name : String) (limit : Nat) (enough : state.rest.length < limit) :
    Yields (readHandlers env name limit) state fun _ after =>
      ∃ used middle, Runs (Handler env) used state middle ∧ middle.AtEnd ∧ after = middle.advance 1 := by
  induction limit generalizing state with
  | zero => exact absurd enough (Nat.not_lt_zero _)
  | succ limit ih =>
    let call (_ : Unit) := readHandlers env name limit
    change Yields (handlersRound env name call ()) state _
    suffices agree : Agree _ (handlersRound env name call ()) state _ from agree.holds
    refine handlersRound_agree env name (fun first moves => ?_) fun runs ends => ⟨_, _, runs, ends, rfl⟩
    have fewer := first.extends.length_lt moves
    refine ⟨rfl, (ih (by omega)).mono fun _ after ended => ?_⟩
    obtain ⟨later, last, runs, ends, rfl⟩ := ended
    exact ⟨_, last, .more first runs, ends, rfl⟩

/-! ## Where a callable ends -/

theorem settled_block {middle : State} (ends : middle.AtEnd) (used : List Token) :
    Settled (used ++ middle.rest.take 1) (middle.rest.drop 1) := by
  rcases ends with none | ⟨closing, rest, front, closes⟩
  · exact .inl (by rw [none]; rfl)
  · rw [front]
    exact (settled_of_isPunct closes rest).prepend used

/-- A callable ends where reading can go on, with its braces closed. -/
theorem CallableRun.ends {env : Env} {kind : DeclKind} {returns : SemType} {name : Token} {start : Nat}
    {used : List Token} {before after : State} (run : CallableRun env kind returns name start used before after) :
    Nested used after.rest ∧ Settled used after.rest := by
  -- The header has no braces of its own but those of its parameters.
  have header {used : List Token} {id scope : Nat} {params : List Param} {headed : State}
      (run : HeaderRun env kind returns name start used before id params scope headed) : Nested used headed.rest := by
    cases run with
    | mk _ _ opens body =>
      have paren := (isBrace_of_isPunct opens (by decide)).1
      exact (nested_of_plain (forall_mem_singleton.mpr paren) _).append body.nested rfl
  cases run with
  | @body used inside _ _ headed middle _ last _ _ _ opening _ run front opens _ inner ends jumps reported =>
      have left : last.rest = middle.rest.drop 1 := Eq.trans reported.rest.symm jumps.rest
      have block := nested_block opens inner.nested ends
      have passed : headed.rest.drop 1 = inside ++ middle.rest := inner.extends.rest
      have whole : headed.rest = (opening :: (inside ++ middle.rest.take 1)) ++ middle.rest.drop 1 := by
        rw [cons_append, append_assoc, take_append_drop, ← passed, front]
        rfl
      change Nested _ last.rest ∧ Settled _ last.rest
      rw [left]
      refine ⟨(header run).append block whole, ?_⟩
      exact (settled_block ends (opening :: inside)).prepend used
  | missing run skipped settled =>
    exact ⟨(header run).append (nested_of_plain skipped.plain _) skipped.rest, settled.prepend _⟩

theorem Handler.ends (handler : Handler env used before after) : Nested used after.rest ∧ Settled used after.rest := by
  cases handler with
  | skip _ _ nested settled => exact ⟨nested, settled⟩
  | handler _ ident _ run =>
    have plain := nested_of_plain (forall_mem_singleton.mpr (isBrace_of_isIdent ident))
    refine ⟨(plain _).append run.ends.1 run.extends.rest, run.ends.2.prepend [_]⟩

/-! ## Items -/

/-- The declaration of a state is the one made in advance for its name, or a new one. -/
inductive StateSlot (name : Token) (before : State) : Nat → State → Prop where
  | known {id : Nat} (found : before.prototypes.lookup name.span.start = some id) : StateSlot name before id before
  | fresh (new : before.prototypes.lookup name.span.start = none) :
      StateSlot name before before.decls.size
        (before.addHeader .state .void name name.span.start Arena.globalScope)

/-- What stands in front of the name of a state, and the first token of both. -/
inductive StateLead : List Token → Token → Token → Prop where
  | bare {name : Token} (word : name.isWord "default" = true) : StateLead [] name name
  | named {head name : Token} (word : head.isWord "state" = true) (ident : name.isIdent = true) :
      StateLead [head] head name

/-- What stands in front of the name of a callable, and where both start. -/
inductive CallableLead : Option SemType → List Token → Token → Nat → Prop where
  | bare {name : Token} (ident : name.isIdent = true)
      (other : name.isWord "default" = false ∧ name.isWord "state" = false)
      (untyped : SemType.ofKeyword? name.text = none) : CallableLead none [] name name.span.start
  | typed {typeToken name : Token} {type : SemType} (typed : typeOf? typeToken = some type)
      (ident : name.isIdent = true) : CallableLead (some type) [typeToken] name typeToken.span.start

/-- A callable outside all states is a function. A handler that stands there is reported. -/
def OutsideStates (env : Env) (kind : DeclKind) (name : Token) (state : State) : Prop :=
  kind = .func ∧ env.definitions.events.contains name.text = false ∨
    kind = .event ∧ env.definitions.events.contains name.text = true ∧
      ⟨.handlerOutsideState name.text, name.span⟩ ∈ state.findings.toList

/-- What reading one item of a document can do. -/
inductive Item (env : Env) : List Token → State → State → Prop where
  /-- What is no item is reported and skipped. -/
  | skip {used : List Token} {before after : State} (pass : Pass used before after) (broken : ¬after.Clean)
      (level : after.rest = [] ∨ braceDepth 0 used = 0) (settled : Settled used after.rest) : Item env used before after
  | variable {used rest : List Token} {before after : State} {typeToken name sign : Token} {type : SemType}
      (front : before.rest = typeToken :: name :: sign :: rest) (typed : typeOf? typeToken = some type)
      (ident : name.isIdent = true) (behind : (sign.isPunct ";" || sign.isOp "=") = true)
      (run : VariableRun type name used (before.advance 2) after) : Item env (typeToken :: name :: used) before after
  | callable {lead used : List Token} {before ready after : State} {type : Option SemType} {name : Token}
      {kind : DeclKind} {start : Nat} (led : CallableLead type lead name start)
      (passed : Pass (lead ++ [name]) before ready) (outside : OutsideStates env kind name ready)
      (run : CallableRun env kind (type.getD .void) name start used ready after) (silent : ready.refs = before.refs) :
      Item env (lead ++ [name] ++ used) before after
  | state {lead used rest : List Token} {before ready chosen middle : State} {head name opening : Token} {id : Nat}
      (led : StateLead lead head name) (passed : Pass (lead ++ [name]) before ready)
      (slot : StateSlot name ready id chosen) (front : chosen.rest = opening :: rest)
      (opens : opening.isPunct "\x7b" = true) (handlers : Runs (Handler env) used (chosen.enter env .state) middle)
      (ends : middle.AtEnd) (silent : ready.refs = before.refs) :
      Item env (lead ++ [name] ++ opening :: (used ++ middle.rest.take 1)) before
        ((middle.advance 1).close.setDecl id fun decl =>
          { decl with fullSpan := ⟨head.span.start, max (middle.advance 1).prevEnd head.span.stop⟩ })
  | stateless {lead used : List Token} {before ready chosen after : State} {head name : Token} {id : Nat}
      (led : StateLead lead head name) (passed : Pass (lead ++ [name]) before ready)
      (slot : StateSlot name ready id chosen) (skipped : Walk used chosen after) (broken : ¬after.Clean)
      (settled : Settled used after.rest) : Item env (lead ++ [name] ++ used) before after

/-- Some tokens in front are read as an item. -/
def ReadsItem (env : Env) (before after : State) : Prop := ∃ used, used ≠ [] ∧ Item env used before after

theorem StateSlot.extends {name : Token} {id : Nat} (slot : StateSlot name before id after) :
    Extends [] before after := by
  cases slot with
  | known => exact .refl before
  | fresh => exact .addDecl ..

theorem StateSlot.rest {name : Token} {id : Nat} (slot : StateSlot name before id after) : after.rest = before.rest :=
  slot.extends.rest.symm

theorem Item.extends (item : Item env used before after) : Extends used before after := by
  cases item with
  | skip pass => exact .pass pass
  | «variable» front typed ident _ run =>
    have body : Body env _ before after := run.body front (isBrace_of_typeOf? typed) ident
    exact body.extends
  | callable _ passed _ run => exact (Extends.pass passed).trans run.extends
  | @state _ _ _ _ _ _ middle _ _ _ _ _ passed slot front _ handlers =>
    have inner := (Runs.extends Handler.extends handlers).trans (.pass (.take middle 1))
    have closed : Extends _ _ (middle.advance 1).close :=
      inner.enclose front Arena.size_pop Arena.named?_pop fun opened some _ => Arena.opened_pop opened some
    exact (((Extends.pass passed).andThen slot.extends).trans closed).andThen (.setDecl ..)
  | stateless _ passed slot skipped =>
    exact ((Extends.pass passed).andThen slot.extends).trans (.pass skipped.toPass)

/-! ### Reading items -/

section ReadItems

variable {env : Env} {state : State} {head : Token} {rest : List Token}

theorem stateDecl_slots (name : Token) (state : State) : Yields (stateDecl name) state (StateSlot name state) := by
  rw [stateDecl, yields_bind, yields_get]
  split
  · next id found => exact .known found
  · next new => exact .fresh new

variable {lead : List Token} {name : Token}

theorem readNamedState_items {ready : State} (led : StateLead lead head name)
    (passed : Pass (lead ++ [name]) state ready) (silent : ready.refs = state.refs) :
    Yields (do
      let id ← stateDecl name
      if ← atPunct "\x7b" then readStateBody env head name id
      else
        discard (expectPunct "\x7b" "to open the state body")
        recover) ready fun _ after => ReadsItem env state after := by
  rw [yields_bind]
  refine (stateDecl_slots name ready).mono fun id chosen slot => ?_
  rw [yields_bind, yields_atPunct]
  split
  · rename_i there
    obtain ⟨opening, rest, front, opens⟩ := exists_of_head?_any there
    rw [readStateBody, yields_bind, yields_here, yields_bind, yields_discard, yields_openScope, yields_bind,
      yields_bump, yields_bind, yields_remaining, yields_bind]
    refine (readHandlers_runs env name.text _ (Nat.lt_succ_self _)).mono fun _ after ended => ?_
    obtain ⟨used, middle, runs, ends, rfl⟩ := ended
    exact ⟨_, by simp, .state led passed slot front opens runs ends silent⟩
  · rename_i absent
    rw [yields_bind, yields_discard, yields_expectPunct, if_neg absent]
    refine recover_settles.mono fun _ after settles => ?_
    obtain ⟨used, walk, settled⟩ := settles
    have broken : ¬after.Clean := fun clean => State.not_clean_report rfl (walk.clean clean)
    exact ⟨_, by simp, .stateless led passed slot (((Walk.refl chosen).report _).trans walk) broken settled⟩

/-- A word with no name behind it is no item. -/
theorem readsItem_unnamed (plain : isBrace head = false) (front : state.rest = head :: rest) (used : List Token)
    (middle : State) (walk : Walk used (state.advance 1) middle) (settled : Settled used middle.rest)
    (broken : ¬middle.Clean) : ReadsItem env state middle := by
  have level := braceDepth_of_plain (forall_mem_cons.mpr ⟨plain, walk.plain⟩) 0
  exact ⟨_, by simp, .skip ((Pass.one front).trans walk.toPass) broken (.inr level) (settled.prepend [head])⟩

theorem readState_items (front : state.rest = head :: rest)
    (word : (head.isWord "default" || head.isWord "state")) :
    Yields (readState env head) state fun _ after => ReadsItem env state after := by
  rw [readState, yields_bind, yields_bump]
  by_cases bare : head.isWord "default"
  · rw [bare]
    exact readNamedState_items (.bare bare) (.one front) rfl
  · have isState := (Bool.or_eq_true_iff.mp word).resolve_left bare
    rw [if_neg bare]
    refine yields_named rfl front (readsItem_unnamed (isBrace_of_isWord isState) front) fun name behind next ident => ?_
    have passed := (walk_two next (isBrace_of_isWord isState) ident).toPass
    exact readNamedState_items (.named isState ident) passed rfl

/-- A piece that is no item ends at a semicolon, behind a group in braces, or behind a brace that closes nothing. -/
theorem skipItem_passes (state : State) :
    Yields skipItem state fun _ after => ∃ used, Pass used state after ∧
      (after.rest = [] ∨ braceDepth 0 used = 0) ∧ Settled used after.rest := by
  rw [skipItem, yields_bind]
  refine recover_settles.mono fun _ middle settles => ?_
  obtain ⟨used, walk, settled⟩ := settles
  have level := braceDepth_of_plain walk.plain 0
  rw [yields_bind, yields_atPunct]
  split
  · rename_i there
    refine (skipTopLevel_group there).mono fun _ after skipped => ?_
    obtain ⟨group, pass, _, nested, ends⟩ := skipped
    refine ⟨_, walk.toPass.trans pass, ?_, ends.prepend used⟩
    refine nested.balanced.imp_right fun balanced => ?_
    rw [braceDepth_append, level, balanced]
  · rw [yields_bind, yields_atPunct]
    split
    · rename_i there
      obtain ⟨closing, rest, front, closes⟩ := exists_of_head?_any there
      refine ⟨_, walk.toPass.trans (.one front), .inr ?_, (settled_of_isPunct closes _).prepend used⟩
      rw [braceDepth_append, level, braceDepth_closing closes]
      rfl
    · exact ⟨used, walk.toPass, .inr level, settled⟩

theorem CallableLead.plain {type : Option SemType} {start : Nat} (led : CallableLead type lead name start) :
    ∀ token ∈ lead ++ [name], isBrace token = false := by
  cases led with
  | bare ident => simpa using isBrace_of_isIdent ident
  | typed typed ident => simpa using ⟨isBrace_of_typeOf? typed, isBrace_of_isIdent ident⟩

/-- An item is read from behind its name on. -/
theorem readNamedItem_items {type : Option SemType} {start : Nat} (led : CallableLead type lead name start)
    (front : state.rest = lead ++ name :: rest) :
    Yields (readNamedItem env type name start) (state.advance (lead.length + 1)) fun _ after =>
      ReadsItem env state after := by
  have passed : Pass (lead ++ [name]) state (state.advance (lead.length + 1)) := by
    have pass := Pass.take state (lead.length + 1)
    rwa [front, take_length_add_append] at pass
  have behind : (state.advance (lead.length + 1)).rest = rest := by
    rw [State.advance, front]
    exact drop_length_add_append ..
  have filled : lead ++ [name] ≠ [] := by simp
  rw [readNamedItem, yields_bind, yields_atPunct]
  split
  · rename_i there
    obtain ⟨paren, more, next, opens⟩ := exists_of_head?_any there
    rw [readGlobalCallable]
    split
    · rename_i isEvent
      let finding : Finding := ⟨.handlerOutsideState name.text, name.span⟩
      have ahead : ((state.advance (lead.length + 1)).report finding).rest = paren :: more := next
      have reported : finding ∈ ((state.advance (lead.length + 1)).report finding).findings.toList := by
        rw [State.report, Array.toList_push]
        exact mem_append_right _ mem_cons_self
      rw [yields_bind, yields_report]
      refine (readCallable_runs env .event type name start ahead opens).mono fun _ after ran => ?_
      obtain ⟨used, run⟩ := ran
      exact ⟨_, by simp, .callable led (passed.report finding) (.inr ⟨rfl, isEvent, reported⟩) run rfl⟩
    · rename_i other
      refine (readCallable_runs env .func type name start next opens).mono fun _ after ran => ?_
      obtain ⟨used, run⟩ := ran
      exact ⟨_, by simp, .callable led passed (.inl ⟨rfl, Bool.eq_false_iff.mpr other⟩) run rfl⟩
  · -- What is neither a callable nor a variable is skipped.
    have other : Yields (do report (.expectedDeclaration name.text) name.span; skipItem)
        (state.advance (lead.length + 1)) fun _ after => ReadsItem env state after := by
      rw [yields_bind, yields_report]
      refine (skipItem_passes _).mono fun _ after skipped => ?_
      obtain ⟨used, pass, level, settled⟩ := skipped
      refine ⟨_, ?_, .skip ((passed.report _).trans pass) (fun clean => ?_) (level.imp_right fun even => ?_)
        (settled.prepend _)⟩
      · simp
      · exact State.not_clean_report rfl (pass.clean clean)
      · rw [braceDepth_append, braceDepth_of_plain led.plain, even]
    rw [yields_bind, yields_atPunct, yields_bind, yields_atOp]
    dsimp only
    cases led with
    | bare => exact other
    | @typed _ name _ typed ident =>
      rw [Option.filter_some]
      split
      · rename_i found
        split at found
        · rename_i declares
          obtain ⟨sign, more, next, ends⟩ : ∃ sign more, rest = sign :: more ∧
              (sign.isPunct ";" || sign.isOp "=") := by
            rw [behind] at declares
            cases rest with
            | nil => simp at declares
            | cons sign more => exact ⟨sign, more, rfl, declares⟩
          obtain rfl := Option.some.inj found
          refine (readVarDecl_runs env _ name _ _).mono fun _ after ran => ?_
          obtain ⟨used, run⟩ := ran
          rw [next] at front
          exact ⟨_, cons_ne_nil _ _, .variable front typed ident ends run⟩
        · cases found
      · exact other

theorem readGlobalItem_items (front : state.rest = head :: rest) (ident : head.isIdent)
    (other : (head.isWord "default" || head.isWord "state") = false) :
    Yields (readGlobalItem env head) state fun _ after => ReadsItem env state after := by
  rw [readGlobalItem, yields_bind, yields_bump]
  split
  · next untyped => exact readNamedItem_items (.bare ident (Bool.or_eq_false_iff.mp other) untyped) front
  · rename_i type keyword
    have typed : typeOf? head = some type := by rw [typeOf?, if_pos ident, keyword]
    refine yields_named rfl front (readsItem_unnamed (isBrace_of_isIdent ident) front) fun name behind next named => ?_
    exact readNamedItem_items (.typed typed named) next

/-- A sign that begins no item is skipped, with the group that it opens. -/
theorem skipTopLevel_items (front : state.rest = head :: rest) (other : head.isIdent = false) :
    Yields (do report (.unexpectedTopLevel head.text) head.span; skipTopLevel) state fun _ after =>
      ReadsItem env state after := by
  let finding : Finding := ⟨.unexpectedTopLevel head.text, head.span⟩
  have reported := (Pass.refl state).report finding
  have ahead : (state.report finding).rest = head :: rest := front
  rw [yields_bind, yields_report]
  by_cases opens : head.isPunct "\x7b"
  · refine (skipTopLevel_group (by rw [ahead]; exact opens)).mono fun _ after skipped => ?_
    obtain ⟨used, pass, moves, nested, settled⟩ := skipped
    refine ⟨_, moves, .skip (reported.trans pass) (fun clean => ?_)
      (nested.balanced.imp_right fun even => even 0) settled⟩
    exact State.not_clean_report rfl (pass.clean clean)
  · rw [skipTopLevel, yields_bind, yields_get, ahead]
    dsimp only
    rw [if_neg opens]
    refine ⟨[head], cons_ne_nil _ _, .skip (reported.trans (.one ahead)) (State.not_clean_report rfl) (.inr ?_)
      (.inr (.inr ⟨[], head, rfl, other⟩))⟩
    rw [braceDepth, if_neg opens]
    split
    · rfl
    · rfl

/-- One item of a document. -/
def itemsRound (env : Env) (call : Unit → Scan Unit) (_ : Unit) : Scan Unit := do
  match ← peek with
  | none => return ()
  | some token =>
    if token.isWord "default" || token.isWord "state" then readState env token
    else if token.isIdent then readGlobalItem env token
    else
      report (.unexpectedTopLevel token.text) token.span
      skipTopLevel
    call ()

/-- Items are read one after the other. Each takes at least one token. -/
theorem itemsRound_agree {call callOther : Unit → Scan Unit} {post : State → Prop}
    (calls : ∀ {used middle}, Item env used state middle → used ≠ [] →
      Agree (call ()) (callOther ()) middle fun _ last => post last)
    (ends : state.rest = [] → post state) :
    Agree (itemsRound env call ()) (itemsRound env callOther ()) state fun _ last => post last := by
  have item {scan : Scan Unit} (yields : Yields scan state fun _ after => ReadsItem env state after) :
      Agree (scan >>= call) (scan >>= callOther) state fun _ last => post last :=
    .bind ⟨rfl, yields⟩ fun _ _ ⟨_, moves, item⟩ => calls item moves
  refine .look peek rfl ?_
  cases front : state.rest with
  | nil => exact .pure (ends front)
  | cons head =>
    dsimp only [head?_cons]
    split
    · next word => exact item (readState_items front word)
    · next other =>
      split
      · next ident => exact item (readGlobalItem_items front ident (Bool.eq_false_iff.mpr other))
      · next sign =>
        have skipped : Yields _ state fun _ after => ReadsItem env state after :=
          skipTopLevel_items front (Bool.eq_false_iff.mpr sign)
        exact item skipped

/-- A document is read item by item to its end. -/
theorem readItems_runs (env : Env) (limit : Nat) {state : State} (enough : state.rest.length < limit) :
    Yields (readItems env limit) state fun _ after => ∃ used, Runs (Item env) used state after ∧ after.rest = [] := by
  induction limit generalizing state with
  | zero => exact absurd enough (Nat.not_lt_zero _)
  | succ limit ih =>
    let call (_ : Unit) := readItems env limit
    change Yields (itemsRound env call ()) state _
    suffices agree : Agree _ (itemsRound env call ()) state _ from agree.holds
    refine itemsRound_agree (fun first moves => ?_) fun none => ⟨[], .done state, none⟩
    have fewer := first.extends.length_lt moves
    refine ⟨rfl, (ih (by omega)).mono fun _ after ended => ?_⟩
    obtain ⟨later, runs, ends⟩ := ended
    exact ⟨_, .more first runs, ends⟩

end ReadItems

end ScriptLint.Analysis
