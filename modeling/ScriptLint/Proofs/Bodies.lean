import ScriptLint.Proofs.ExprSteps
import ScriptLint.Proofs.Frames

/-!
# What reading statements does

Besides walking over tokens, a statement can declare a variable, set a label, jump, and open a scope for a block or a
loop, inside which more statements are read. Whatever the tokens are, a scope that is opened is left again, and a block
ends at a closing brace or at the end of the document.
-/

namespace ScriptLint.Analysis

open TopLevel List

/-! ## Walks -/

/-- A scan that walks wherever it starts. -/
def ReadsWalk {α : Type} (scan : Scan α) : Prop := ∀ state, Yields scan state fun _ after => Walks state after

namespace ReadsWalk

variable {α β : Type} {scan : Scan α} {next : α → Scan β}

theorem pure (value : α) : ReadsWalk (Pure.pure value) := fun state => .refl state

theorem bind (first : ReadsWalk scan) (second : ∀ value, ReadsWalk (next value)) : ReadsWalk (scan >>= next) := by
  intro state
  rw [yields_bind]
  refine (first state).mono fun value middle walks => ?_
  exact (second value middle).mono fun _ _ more => walks.trans more

theorem map (reads : ReadsWalk scan) (image : α → β) : ReadsWalk (image <$> scan) := fun state =>
  (reads state).mono fun _ _ walks => walks

theorem discard (reads : ReadsWalk scan) : ReadsWalk (Functor.discard scan) := fun state =>
  (reads state).mono fun _ _ walks => walks

end ReadsWalk

variable {α : Type}

theorem ReadsPhrase.walk {scan : Scan α} (reads : ReadsPhrase scan) : ReadsWalk scan :=
  fun state => (reads state).mono fun _ _ phrases => phrases.walks

theorem readsWalk_get : ReadsWalk (get : Scan State) := fun state => .refl state

theorem readsWalk_atPunct (sign : String) : ReadsWalk (atPunct sign) := fun state => .refl state

variable {token : Token} {rest : List Token} {state before : State} {env : Env}

theorem bump_walks (front : state.rest = token :: rest) (plain : isBrace token = false) :
    Walks state (state.advance 1) :=
  ⟨[token], .one front, by simpa using plain⟩

theorem expectPunct_walks {sign context : String} (other : sign ≠ "\x7b" ∧ sign ≠ "\x7d") :
    ReadsWalk (expectPunct sign context) := by
  intro state
  rw [yields_expectPunct]
  split
  · rename_i found
    obtain ⟨token, rest, front, isSign⟩ := exists_of_head?_any found
    refine bump_walks front ?_
    rw [isBrace, isPunct_eq isSign, isPunct_eq isSign, beq_eq_false_iff_ne.mpr other.1,
      beq_eq_false_iff_ne.mpr other.2]
    rfl
  · exact (Walks.refl state).report _

theorem readsWalk_recoverUnless (found : Bool) : ReadsWalk (recoverUnless found) := fun _ => recoverUnless_walks found

theorem readsWalk_checkDeadCode (env : Env) (stop : Nat) : ReadsWalk (checkDeadCode env stop) := by
  refine readsWalk_get.bind fun state => ?_
  dsimp only
  split
  · exact (readsPhrase_note (some ⟨_, _⟩)).walk
  · exact .pure _

theorem readsWalk_endTerminator (env : Env) (inBlock closed : Bool) : ReadsWalk (endTerminator env inBlock closed) := by
  unfold endTerminator
  split
  · exact fun _ => recover_walks
  · split
    · exact ReadsWalk.bind (fun state => .refl state) fun stop => readsWalk_checkDeadCode env stop
    · exact .pure _

theorem readsWalk_checkCondition (what : String) (condition : Typed) : ReadsWalk (checkCondition what condition) := by
  unfold checkCondition
  induction conditionFindings what condition with
  | nil => exact .pure _
  | cons finding _ ih => exact (readsPhrase_note (some finding)).walk.bind fun _ => ih

theorem readsWalk_readCondition (env : Env) (what : String) : ReadsWalk (readCondition env what) := by
  refine (expectPunct_walks (by decide)).bind fun opened => ?_
  split
  · exact (readsPhrase_readExpr env).walk.bind fun condition => (readsWalk_checkCondition what condition).bind fun _ =>
      (expectPunct_walks (by decide)).bind fun closed => readsWalk_recoverUnless closed
  · exact .pure _

theorem readsWalk_readExprList (env : Env) (close : String) (limit : Nat) :
    ReadsWalk (readExprList env close limit) := by
  induction limit with
  | zero => exact .pure _
  | succ _ ih =>
    intro state
    rw [readExprList, yields_bind, yields_peek]
    split
    · exact .refl state
    · refine ((readsPhrase_readExpr env).walk.bind (fun _ => ?_) state)
      refine (ReadsPhrase.walk fun _ => eatPunct_phrases (by decide)).bind fun eaten => ?_
      split
      · exact ih
      · exact .pure _

theorem readsWalk_readForHeader (env : Env) : ReadsWalk (readForHeader env) := by
  have ends : ReadsWalk (do
      discard (expectPunct ";" "after the loop condition")
      readExprList env ")" ((← remaining) + 1)
      recoverUnless (← expectPunct ")" "to close the loop header")) :=
    (expectPunct_walks (by decide)).discard.bind fun _ => readsPhrase_remaining.walk.bind fun _ =>
      (readsWalk_readExprList env ")" _).bind fun _ => (expectPunct_walks (by decide)).bind fun closed =>
        readsWalk_recoverUnless closed
  refine readsPhrase_remaining.walk.bind fun _ => (readsWalk_readExprList env ";" _).bind fun _ => ?_
  refine (expectPunct_walks (by decide)).discard.bind fun _ => (readsWalk_atPunct ";").bind fun last => ?_
  split
  · exact (readsPhrase_readExpr env).walk.bind fun condition =>
      (readsWalk_checkCondition "for" condition).bind fun _ => ends
  · exact ends

theorem readsWalk_readExprStatement (env : Env) : ReadsWalk (readExprStatement env) :=
  (readsPhrase_readExpr env).walk.discard.bind fun _ => (expectPunct_walks (by decide)).bind fun closed =>
    readsWalk_recoverUnless closed

/-- An identifier that has to come is passed over, or reported to be missing. -/
theorem readIdent_settles {problem : Problem} (malformed : problem.code = .malformed) (state : State) :
    Yields (readIdent problem) state fun found after =>
      match found with
      | some name => (∃ rest, state.rest = name :: rest) ∧ name.isIdent ∧ after = state.advance 1
      | none => ¬after.Clean ∧ ∃ used, Walk used state after ∧ Settled used after.rest := by
  rw [readIdent, yields_bind, yields_peek]
  have missing : Yields (do reportHere problem; recover; return (none : Option Token)) state
      fun found after => found = none ∧ ¬after.Clean ∧ ∃ used, Walk used state after ∧ Settled used after.rest := by
    rw [yields_bind, yields_reportHere, yields_bind]
    refine recover_settles.mono fun _ after settles => ?_
    obtain ⟨used, walk, settled⟩ := settles
    exact ⟨rfl, fun clean => State.not_clean_report malformed (walk.clean clean), used,
      ((Walk.refl state).report _).trans walk, settled⟩
  cases front : state.rest with
  | nil =>
    refine missing.mono fun found after => ?_
    rintro ⟨rfl, walks⟩
    exact walks
  | cons _ rest =>
    dsimp only [head?_cons]
    split
    · next ident => exact ⟨⟨rest, rfl⟩, ident, rfl⟩
    · refine missing.mono fun found after => ?_
      rintro ⟨rfl, walks⟩
      exact walks

theorem isBrace_of_isIdent (ident : token.isIdent) : isBrace token = false :=
  (plain_of_isIdent ident).1

theorem isBrace_of_isWord {word : String} (isWord : token.isWord word) : isBrace token = false :=
  isBrace_of_isIdent (Bool.and_eq_true_iff.mp isWord).1

/-! ## Runs of statements -/

/-- What reading statements, parameters and variables can do, with the tokens that it passes over. -/
inductive Body (env : Env) : List Token → State → State → Prop where
  | walk {used : List Token} {before after : State} (walk : Walk used before after) : Body env used before after
  | trans {used more : List Token} {before middle after : State} (first : Body env used before middle)
      (second : Body env more middle after) : Body env (used ++ more) before after
  /-- A name is declared behind its value. Only a variable has one, and its declaration reaches over the next token. -/
  | declare {used rest : List Token} {before middle : State} {typeToken name : Token} {kind : DeclKind}
      (isValue : kind = .var ∨ kind = .param) (type : SemType) (full : Span)
      (front : before.rest = typeToken :: name :: rest) (typed : isBrace typeToken = false)
      (ident : name.isIdent = true) (value : Walk used (before.advance 2) middle)
      (free : middle.arena.named? middle.arena.current name.text = none)
      (reaches : used = [] ∨ kind = .var ∧ middle.place.stop ≤ full.stop) :
      Body env (typeToken :: name :: used) before (middle.declare kind name type full)
  | label {rest : List Token} {before : State} {mark name : Token} (front : before.rest = mark :: name :: rest)
      (plain : isBrace mark = false) (ident : name.isIdent = true) :
      Body env [mark, name] before ((before.advance 2).label mark.span name)
  | jump {rest : List Token} {before : State} {keyword name : Token} (front : before.rest = keyword :: name :: rest)
      (plain : isBrace keyword = false) (ident : name.isIdent = true) :
      Body env [keyword, name] before ((before.advance 2).jump name)
  | block {used rest : List Token} {before middle : State} {opening : Token}
      (front : before.rest = opening :: rest) (opens : opening.isPunct "\x7b" = true)
      (inner : Body env used (before.enter env .block) middle) (ends : middle.AtEnd) :
      Body env (opening :: (used ++ middle.rest.take 1)) before
        ((middle.advance 1).leave before.arena.scopes.size)
  | loop {used rest : List Token} {before middle : State} {keyword : Token}
      (front : before.rest = keyword :: rest) (plain : isBrace keyword = false)
      (inner : Body env used (before.enter env .forHeader) middle) :
      Body env (keyword :: used) before (middle.leave before.arena.scopes.size)

theorem walk_two {first second : Token} (front : state.rest = first :: second :: rest)
    (plain : isBrace first = false) (ident : second.isIdent) : Walk [first, second] state (state.advance 2) := by
  have pass : Pass [first, second] state (state.advance 2) := by
    have pass := Pass.take state 2
    rwa [front] at pass
  exact ⟨pass, by simp [plain, isBrace_of_isIdent ident]⟩

theorem Body.extends {env : Env} {used : List Token} {before after : State} (body : Body env used before after) :
    Extends used before after := by
  induction body with
  | walk walk => exact .pass walk.toPass
  | trans _ _ first second => exact first.trans second
  | declare _ _ _ front typed ident value =>
    have whole := (walk_two front typed ident).trans value
    exact (Extends.pass whole.toPass).andThen ((Extends.addDecl ..).trans (.bind ..))
  | label front plain ident =>
    exact (Extends.pass (walk_two front plain ident).toPass).andThen ((Extends.addDecl ..).trans (.within ..))
  | jump front plain ident =>
    exact (Extends.pass (walk_two front plain ident).toPass).andThen ((Extends.refer ..).trans (.within ..))
  | @block _ _ _ middle _ front _ _ _ ih =>
    exact (ih.trans (.pass (.take middle 1))).leave front
  | loop front _ _ ih => exact ih.leave front

/-- A body of some tokens. -/
def Bodies (env : Env) (before after : State) : Prop := ∃ used, Body env used before after

namespace Bodies

variable {env : Env} {before middle after : State}

theorem refl (state : State) : Bodies env state state := ⟨[], .walk (.refl state)⟩

theorem trans (first : Bodies env before middle) (second : Bodies env middle after) : Bodies env before after := by
  obtain ⟨used, first⟩ := first
  obtain ⟨more, second⟩ := second
  exact ⟨used ++ more, first.trans second⟩

theorem forward (bodies : Bodies env before after) : after.rest <:+ before.rest :=
  bodies.elim fun _ body => body.extends.suffix

end Bodies

theorem Walks.bodies {after : State} (walks : Walks before after) : Bodies env before after := by
  obtain ⟨used, walk⟩ := walks
  exact ⟨used, .walk walk⟩

theorem ReadsWalk.bodies {scan : Scan α} (reads : ReadsWalk scan) (env : Env) (state : State) :
    Yields scan state fun _ after => Bodies env state after :=
  (reads state).mono fun _ _ walks => walks.bodies

/-! ### Declarations, labels and jumps -/

theorem State.advance_advance {first second : Token} (front : state.rest = first :: second :: rest) :
    (state.advance 1).advance 1 = state.advance 2 := by
  simp [State.advance, front]

/-- The identifier behind a word, which may be missing. -/
theorem yields_named {next : Option Token → Scan α} {problem : Problem} {keyword : Token}
    {post : α → State → Prop} (malformed : problem.code = .malformed) (front : before.rest = keyword :: rest)
    (absent : ∀ used middle, Walk used (before.advance 1) middle → Settled used middle.rest → ¬middle.Clean →
      Yields (next none) middle post)
    (named : ∀ name behind, before.rest = keyword :: name :: behind → name.isIdent →
      Yields (next (some name)) (before.advance 2) post) :
    Yields (readIdent problem >>= next) (before.advance 1) post := by
  rw [yields_bind]
  refine (readIdent_settles malformed _).mono fun found middle made => ?_
  cases found with
  | none =>
    obtain ⟨broken, used, walk, settled⟩ := made
    exact absent used middle walk settled broken
  | some name =>
    obtain ⟨⟨behind, next⟩, ident, rfl⟩ := made
    obtain rfl : rest = name :: behind := by rwa [State.advance, front] at next
    rw [State.advance_advance front]
    exact named name behind front ident

/-- A reference is recorded to the name behind a keyword. -/
theorem walk_refer {keyword name : Token} {target : Target}
    (front : state.rest = keyword :: name :: rest) (plain : isBrace keyword = false) (ident : name.isIdent)
    (leads : ∀ id, target = .decl id → state.declared.Finds name.text id) :
    Walk [keyword, name] state ((state.advance 2).refer ⟨name.text, name.span, target⟩) := by
  have next : (state.advance 1).rest = name :: rest := by rw [State.advance, front]; rfl
  have pass := (Pass.one front).trans (.refer next ident (.refl _) leads)
  rw [State.advance_advance front] at pass
  exact ⟨pass, (walk_two front plain ident).plain⟩

theorem walk_unresolved {keyword name : Token} (front : state.rest = keyword :: name :: rest)
    (plain : isBrace keyword = false) (ident : name.isIdent) :
    Walk [keyword, name] state ((state.advance 2).refer ⟨name.text, name.span, .unresolved⟩) :=
  walk_refer front plain ident nofun

/-- A name is declared in the innermost scope, unless it is reserved or taken. -/
inductive Declares (kind : DeclKind) (name : Token) (type : SemType) (full : Span) (before : State) : State → Prop where
  | made (free : before.arena.named? before.arena.current name.text = none) :
      Declares kind name type full before (before.declare kind name type full)
  | refused {finding : Finding}
      (code : finding.problem.code = .reservedIdentifier ∨ finding.problem.code = .duplicateDecl) :
      Declares kind name type full before (before.report finding)

theorem declare_declares (kind : DeclKind) (name : Token) (type : SemType) (full : Span) (state : State) :
    Yields (declare kind name type full state.arena.current) state fun _ after =>
      Declares kind name type full state after := by
  unfold declare
  split
  · exact .refused (.inl rfl)
  · rw [yields_bind, yields_nextDecl, yields_bind, bindName, yields_bind, yields_get]
    split
    · exact .refused (.inr rfl)
    · next free => exact .made free

namespace Declares

variable {kind : DeclKind} {name : Token} {type : SemType} {full : Span} {before after : State}

variable (declares : Declares kind name type full before after)

include declares

theorem rest_eq : after.rest = before.rest := by
  cases declares <;> rfl

theorem clean (clean : after.Clean) : before.Clean := by
  cases declares with
  | made => exact clean
  | refused => exact ((Pass.refl before).report _).clean clean

/-- Declaring a name behind its type and value is part of a body. -/
theorem body {env : Env} {start : State} {typeToken : Token} {rest used : List Token}
    (isValue : kind = .var ∨ kind = .param)
    (front : start.rest = typeToken :: name :: rest) (typed : isBrace typeToken = false) (ident : name.isIdent)
    (value : Walk used (start.advance 2) before) (reaches : used = [] ∨ kind = .var ∧ before.place.stop ≤ full.stop) :
    Body env (typeToken :: name :: used) start after := by
  cases declares with
  | made free => exact .declare isValue type full front typed ident value free reaches
  | refused => exact .walk (((walk_two front typed ident).trans value).report _)

end Declares

theorem skipStatement_append {tokens rest : List Token} (plain : ∀ token ∈ tokens, isBrace token = false)
    (open_ : ∀ token ∈ tokens, token.isPunct ";" = false) :
    skipStatement (tokens ++ rest) = skipStatement rest := by
  induction tokens with
  | nil => rfl
  | cons _ _ ih =>
    obtain ⟨plainFirst, plainLater⟩ := forall_mem_cons.mp plain
    obtain ⟨openFirst, openLater⟩ := forall_mem_cons.mp open_
    rw [cons_append, skipStatement, openFirst, (Bool.or_eq_false_iff.mp plainFirst).1]
    exact ih plainLater openLater

/-- The end of a statement: a semicolon, or what recovers from its absence. -/
theorem endStatement_walks (context : String) (state : State) :
    Yields (do recoverUnless (← expectPunct ";" context)) state fun _ after =>
      ∃ used, Walk used state after ∧ Settled used after.rest ∧
        (after.Clean → skipStatement state.rest = after.rest) := by
  rw [yields_bind, yields_expectPunct]
  split
  · rename_i found
    obtain ⟨sign, rest, front, isSign⟩ := exists_of_head?_any found
    refine ⟨[sign], ⟨.one front, ?_⟩, settled_of_isPunct isSign _, fun _ => ?_⟩
    · simp [isBrace, isPunct_eq isSign]
    · rw [front, skipStatement, isSign, State.advance, front]
      rfl
  · refine recover_settles.mono fun _ after settles => ?_
    obtain ⟨used, walk, settled⟩ := settles
    exact ⟨used, ((Walk.refl state).report _).trans walk, settled,
      fun clean => absurd (walk.clean clean) (State.not_clean_report rfl)⟩

/-- A variable is read from behind its name on: its value, the declaration, and the end of the statement. -/
inductive VariableRun (type : SemType) (name : Token) : List Token → State → State → Prop where
  | mk {value behind : List Token} {before middle declared after : State} {full : Span}
      (walk : Walk value before middle)
      (declares : Declares .var name type full middle declared) (ends : Walk behind declared after)
      (settled : Settled behind after.rest)
      (statement : after.Clean → skipStatement before.rest = after.rest)
      (reaches : middle.place.stop ≤ full.stop) :
      VariableRun type name (value ++ behind) before after

theorem VariableRun.body {type : SemType} {typeToken name : Token} {used rest : List Token} {after : State}
    (run : VariableRun type name used (before.advance 2) after) (front : before.rest = typeToken :: name :: rest)
    (typed : isBrace typeToken = false) (ident : name.isIdent) :
    Body env (typeToken :: name :: used) before after := by
  cases run with
  | mk walk declares ends _ _ reaches =>
    exact (declares.body (.inl rfl) front typed ident walk (.inr ⟨rfl, reaches⟩)).trans (.walk ends)

theorem readVarDecl_runs (env : Env) (type : SemType) (name : Token) (start : Nat) (before : State) :
    Yields (readVarDecl env type name start) before fun _ after => ∃ used, VariableRun type name used before after := by
  -- What follows the value, when there is one.
  have behind {middle : State} (value : Phrases before middle) :
      Yields (do
        let stop := (← here).stop
        let _ ← declare .var name type ⟨start, max stop name.span.stop⟩ (← currentScope)
        recoverUnless (← expectPunct ";" "after the declaration")) middle fun _ after =>
          ∃ used, VariableRun type name used before after := by
    rw [yields_bind, yields_here]
    rw [yields_bind, yields_currentScope, yields_bind]
    refine (declare_declares ..).mono fun _ declared declares => ?_
    refine (endStatement_walks _ declared).mono fun _ after ended => ?_
    obtain ⟨used, phrase⟩ := value
    obtain ⟨tail, ends, settled, statement⟩ := ended
    refine ⟨_, .mk phrase.toWalk declares ends settled (fun clean => ?_) (Nat.le_max_left ..)⟩
    rw [phrase.rest, skipStatement_append phrase.plain (phrase.open_ (declares.clean (ends.clean clean))),
      ← declares.rest_eq]
    exact statement clean
  rw [readVarDecl, yields_bind, yields_atOp]
  split
  · rename_i assigned
    obtain ⟨sign, more, front, isOp⟩ := exists_of_head?_any assigned
    have passed := bump_phrases front (by rw [eq_of_beq (Bool.and_eq_true_iff.mp isOp).1]; decide)
    rw [yields_bind, yields_bump, yields_bind]
    refine (readsPhrase_readExpr env _).mono fun value middle phrases => ?_
    split
    · rw [yields_bind]
      exact behind ((passed.trans phrases).report _)
    · exact behind (passed.trans phrases)
  · exact behind (.refl _)

/-- A variable is read from its type on, of which the name was passed over. -/
theorem readVarDecl_bodies (env : Env) (type : SemType) (start : Nat) {typeToken name : Token}
    (front : before.rest = typeToken :: name :: rest) (typed : isBrace typeToken = false) (ident : name.isIdent) :
    Yields (readVarDecl env type name start) (before.advance 2) fun _ after => Bodies env before after :=
  (readVarDecl_runs env type name start _).mono fun _ _ runs =>
    runs.elim fun _ run => ⟨_, run.body front typed ident⟩

theorem readJump_bodies (env : Env) (inBlock : Bool) {keyword : Token}
    (front : before.rest = keyword :: rest) (plain : isBrace keyword = false) :
    Yields (readJump env inBlock) before fun _ after => Bodies env before after := by
  rw [readJump, yields_bind, yields_bump]
  refine yields_named rfl front (fun used _ walk _ _ => ((bump_walks front plain).trans ⟨used, walk⟩).bodies) ?_
  intro name behind front ident
  rw [yields_bind, yields_addRef]
  have jumped : Bodies env before ((before.advance 2).jump name) := ⟨_, .jump front plain ident⟩
  refine ((expectPunct_walks (by decide)).bind (fun closed => readsWalk_endTerminator env inBlock closed)
    ((before.advance 2).jump name)).mono fun _ _ walks => jumped.trans walks.bodies

theorem readLabel_bodies (env : Env) {mark : Token} (front : before.rest = mark :: rest)
    (plain : isBrace mark = false) : Yields readLabel before fun _ after => Bodies env before after := by
  rw [readLabel, yields_bind, yields_here, yields_bind, yields_bump]
  refine yields_named rfl front (fun used _ walk _ _ => ((bump_walks front plain).trans ⟨used, walk⟩).bodies) ?_
  intro name behind front ident
  have place : before.place = mark.span := by rw [State.place, front]; rfl
  rw [place]
  rw [yields_bind]
  have set_ : Yields (declareLabel mark.span name) (before.advance 2) fun _ after => Bodies env before after := by
    have passed : Bodies env before (before.advance 2) := ⟨_, .walk (walk_two front plain ident)⟩
    rw [declareLabel, yields_bind, yields_get]
    dsimp only
    split
    · exact passed.trans ((Walks.refl _).report _).bodies
    · split
      · exact passed.trans ((Walks.refl _).report _).bodies
      · exact ⟨_, .label front plain ident⟩
  refine set_.mono fun _ middle bodies => ?_
  refine ((expectPunct_walks (by decide)).bind (fun closed => readsWalk_recoverUnless closed) middle).mono ?_
  exact fun _ _ walks => bodies.trans walks.bodies

section Leaf

variable {env : Env} {state : State} {keyword : Token}

theorem readReturn_walks (inBlock : Bool) (front : state.rest = keyword :: rest)
    (plain : isBrace keyword = false) :
    Yields (readReturn env inBlock keyword) state fun _ after => Walks state after := by
  rw [readReturn, yields_bind]
  have ends (value : Option Typed) : ReadsWalk (do
      let closed ← expectPunct ";" "after 'return'"
      note ((← get).callable.bind fun callable => returnFinding callable keyword.span value)
      endTerminator env inBlock closed) :=
    (expectPunct_walks (by decide)).bind fun closed => readsWalk_get.bind fun _ =>
      (readsPhrase_note _).walk.bind fun _ => readsWalk_endTerminator env inBlock closed
  suffices value : Yields _ (state.advance 1) fun _ after => Walks (state.advance 1) after from
    value.mono fun _ _ walks => (bump_walks front plain).trans walks
  refine (readsWalk_atPunct ";").bind (fun absent => ?_) _
  split
  · exact (ReadsWalk.pure none).bind ends
  · exact ((readsPhrase_readExpr env).walk.map some).bind ends

theorem readStateChange_walks (inBlock : Bool) (front : state.rest = keyword :: rest)
    (plain : isBrace keyword = false) :
    Yields (readStateChange env inBlock) state fun _ after => Walks state after := by
  rw [readStateChange, yields_bind, yields_bump]
  refine yields_named rfl front (fun used _ walk _ _ => (bump_walks front plain).trans ⟨used, walk⟩) ?_
  intro name behind front ident
  have ends : ReadsWalk (do
      endTerminator env inBlock (← expectPunct ";" "after the state change")) :=
    (expectPunct_walks (by decide)).bind fun closed => readsWalk_endTerminator env inBlock closed
  rw [yields_bind, yields_get]
  split
  · rename_i id known
    have referred := walk_refer front plain ident fun _ target => .inr (.inr (Target.decl.inj target ▸ known))
    exact (ends _).mono fun _ _ walks => Walks.trans ⟨_, referred⟩ walks
  · rw [yields_bind, yields_discard, yields_addRef, yields_bind]
    have referred := walk_unresolved front plain ident
    exact (ends _).mono fun _ _ walks => Walks.trans ⟨_, referred.report _⟩ walks

theorem exists_of_declarationAt? {tokens : List Token} {type : SemType} {name : Token}
    (declared : declarationAt? tokens = some (type, name)) :
    ∃ first rest, tokens = first :: name :: rest ∧ name.isIdent := by
  unfold declarationAt? at declared
  split at declared
  · next first second rest =>
    split at declared
    · next ident =>
      obtain ⟨_, -, same⟩ := Option.map_eq_some_iff.mp declared
      cases same
      exact ⟨first, rest, rfl, ident⟩
    · cases declared
  · cases declared

theorem readPlain_bodies (inBlock : Bool) {token : Token} (front : state.rest = token :: rest)
    (ident : token.isIdent) :
    Yields (readPlain env inBlock token) state fun _ after => Bodies env state after := by
  rw [readPlain, yields_bind, yields_get]
  split
  · rename_i type name found
    obtain ⟨first, more, frontToo, named⟩ := exists_of_declarationAt? found
    obtain ⟨rfl, rfl⟩ := List.cons.inj (front.symm.trans frontToo)
    have plain := isBrace_of_isIdent ident
    split
    · rw [yields_bind, yields_report, yields_bind, yields_advance]
      have reported : (state.report ⟨.declarationNotAllowed, token.span⟩).rest = token :: name :: more := front
      refine (readVarDecl_bodies env _ _ reported plain named).mono fun _ _ bodies => ?_
      exact ((Walks.refl state).report _).bodies.trans bodies
    · rw [yields_bind]
      exact readVarDecl_bodies env _ _ front plain named
  · exact (readsWalk_readExprStatement env).bodies env state

end Leaf

/-! ### Blocks and nested statements -/

/-- One statement of a block. -/
def statementsRound (sub : StatementReader) (opening : Span) (call : Bool → Scan Bool) (returns : Bool) :
    Scan Bool := do
  match ← peek with
  | none =>
    report .blockNotClosed opening
    return returns
  | some token =>
    if token.isPunct "\x7d" then
      bump
      return returns
    else
      let before ← remaining
      let returned ← sub true
      if (← remaining) == before then bump
      call (returns || returned)

theorem readStatementWithin_succ (env : Env) (depth : Nat) :
    readStatementWithin env (depth + 1) = readStatementWith env (readStatementWithin env depth) := by
  funext inBlock
  rw [readStatementWithin]

/-- A relation between states that allows the steps of reading statements, given the relation of a single one that
stands inside another. -/
structure Course (env : Env) (rel inner : State → State → Prop) : Prop where
  trans {before middle after : State} (first : rel before middle) (second : rel middle after) : rel before after
  /-- Tokens are only dropped from the front. -/
  forward {before after : State} (passed : rel before after) : after.rest <:+ before.rest
  bodies {before after : State} (bodies : Bodies env before after) : rel before after
  statement {before after : State} (taken : inner before after) : rel before after
  /-- Where a statement takes nothing, the token in front is passed over. -/
  stuck {before after : State} {token : Token} {rest : List Token} (front : before.rest = token :: rest)
    (notClosing : token.isPunct "\x7d" = false) (taken : inner before after) (same : after.rest = before.rest) :
    rel before (after.advance 1)
  block {before middle : State} {opening : Token} {rest : List Token} (front : before.rest = opening :: rest)
    (opens : opening.isPunct "\x7b" = true) (inside : rel (before.enter env .block) middle) (ends : middle.AtEnd) :
    rel before ((middle.advance 1).leave before.arena.scopes.size)
  loop {before middle : State} {keyword : Token} {rest : List Token} (front : before.rest = keyword :: rest)
    (plain : isBrace keyword = false) (inside : rel (before.enter env .forHeader) middle) :
    rel before (middle.leave before.arena.scopes.size)

/-- Where a block begins at least one token is taken. -/
def Takes (rel : State → State → Prop) (before after : State) : Prop :=
  rel before after ∧ (before.rest.head?.any (·.isPunct "\x7b") = true → after.rest.length < before.rest.length)

theorem State.advance_nil (none : state.rest = []) (count : Nat) : state.advance count = state := by
  simp [State.advance, none]
  rw [← none]

theorem bodies_course (env : Env) : Course env (Bodies env) (Takes (Bodies env)) where
  trans := .trans
  forward := Bodies.forward
  bodies bodies := bodies
  statement taken := taken.1
  stuck {before after token rest} front notClosing taken same := by
    -- The token that no statement takes is no brace.
    have notOpening : token.isPunct "\x7b" ≠ true := by
      intro opens
      have moves := taken.2 (by rw [front]; exact opens)
      rw [same] at moves
      exact Nat.lt_irrefl _ moves
    have plain : isBrace token = false := by
      rw [isBrace, Bool.eq_false_iff.mpr notOpening, notClosing]
      rfl
    exact taken.1.trans (bump_walks (same.trans front) plain).bodies
  block front opens inside ends := inside.elim fun _ inside => ⟨_, .block front opens inside ends⟩
  loop front plain inside := inside.elim fun _ inside => ⟨_, .loop front plain inside⟩

theorem yields_openScope {kind : ScopeKind} {start : Nat} {post : Nat → State → Prop} :
    Yields (openScope env kind start) state post ↔
      post state.arena.scopes.size { state with arena := state.arena.push kind start env.length } := .rfl

theorem ReadsWalk.agree {scan : Scan α} (reads : ReadsWalk scan) (state : State) : AgreeBy Walks scan scan state :=
  ⟨rfl, reads state⟩

theorem Agree.word {next nextOther : Bool → Scan α} {word : String} {post : α → State → Prop}
    (there : ∀ token rest, state.rest = token :: rest → token.isWord word →
      Agree (next true) (nextOther true) state post)
    (absent : Agree (next false) (nextOther false) state post) :
    Agree (atWord word >>= next) (atWord word >>= nextOther) state post := by
  refine .look (atWord word) rfl ?_
  by_cases found : state.rest.head?.any (·.isWord word)
  · obtain ⟨token, rest, front, isWord⟩ := exists_of_head?_any found
    rw [found]
    exact there token rest front isWord
  · rw [Bool.eq_false_iff.mpr found]
    exact absent

theorem Agree.enter {next nextOther : Nat → Scan α} {kind : ScopeKind} {post : α → State → Prop}
    (behind : Agree (next state.arena.scopes.size) (nextOther state.arena.scopes.size) (state.enter env kind) post) :
    Agree (do let scope ← openScope env kind state.place.start; Analysis.bump; next scope)
      (do let scope ← openScope env kind state.place.start; Analysis.bump; nextOther scope) state post :=
  ⟨behind.same, behind.holds⟩

section Statements

variable {env : Env} {rel inner : State → State → Prop} (course : Course env rel inner) {bound : Nat}
  {sub other : StatementReader} (parts : AgreeBelow inner bound sub other) {state : State}

include course parts

theorem statementsRound_agree (opening : Span) {call callOther : Bool → Scan Bool} {post : State → Prop}
    (small : state.rest.length < bound)
    (calls : ∀ returns after, after.rest.length < state.rest.length → rel state after →
      Agree (call returns) (callOther returns) after fun _ last => post last)
    (ends : ∀ last, rel state last → last.AtEnd → post (last.advance 1)) (returns : Bool) :
    Agree (statementsRound sub opening call returns) (statementsRound other opening callOther returns) state
      fun _ last => post last := by
  refine .look peek rfl ?_
  cases front : state.rest with
  | nil =>
    have reported : (state.report ⟨.blockNotClosed, opening⟩).rest = [] := front
    have done := ends _ (course.bodies ((Walks.refl state).report _).bodies) (.inl reported)
    rw [State.advance_nil reported] at done
    exact .report (.pure done)
  | cons token rest =>
    dsimp only [head?_cons]
    split
    · next closes =>
      exact .bump (.pure (ends state (course.bodies (.refl state)) (.inr ⟨token, rest, front, closes⟩)))
    · next notClosing =>
      refine .look remaining rfl ((parts true state small).bind fun returned middle taken => .look remaining rfl ?_)
      have begun := course.statement taken
      have le := (course.forward begun).length_le
      split
      · next stays =>
        have same := (course.forward begun).eq_of_length (eq_of_beq stays)
        have moved := State.length_advance (same.trans front)
        exact .bump (calls _ _ (by omega) (course.stuck front (Bool.eq_false_iff.mpr notClosing) taken same))
      · next moved =>
        have apart : middle.rest.length ≠ state.rest.length := by simpa using moved
        exact calls _ middle (by omega) begun

theorem readStatements_agree (opening : Span) (limit : Nat) (returns : Bool) (enough : state.rest.length < limit)
    (small : state.rest.length < bound) :
    Agree (readStatements sub opening limit returns) (readStatements other opening limit returns) state
      fun _ after => ∃ middle, rel state middle ∧ middle.AtEnd ∧ after = middle.advance 1 := by
  induction limit generalizing state returns with
  | zero => exact absurd enough (Nat.not_lt_zero _)
  | succ _ ih =>
    refine statementsRound_agree course parts opening small (fun returns after fewer begun => ?_)
      (fun last passed ends => ⟨last, passed, ends, rfl⟩) returns
    refine (ih returns (by omega) (by omega)).mono fun _ _ ended => ?_
    obtain ⟨middle, more, ends, rfl⟩ := ended
    exact ⟨middle, course.trans begun more, ends, rfl⟩

theorem sub_agree {before middle : State} (inBlock : Bool) (walks : Walks before middle)
    (small : middle.rest.length < bound) :
    Agree (sub inBlock) (other inBlock) middle fun _ after => rel before after :=
  (parts inBlock middle small).mono fun _ _ taken => course.trans (course.bodies walks.bodies) (course.statement taken)

theorem discard_sub_agree {before middle : State} (walks : Walks before middle) (small : middle.rest.length < bound) :
    Agree (discard (sub false)) (discard (other false)) middle fun _ after => rel before after :=
  .dropped ((sub_agree course parts false walks small).bind fun _ _ passed => .pure passed)

section Front

variable {token : Token} (front : state.rest = token :: rest)
  (small : state.rest.length < bound + 1)

include front small

/-- A block is read up to its closing brace, or to the end of the document. -/
theorem readBlock_agree :
    Agree (readBlock env sub) (readBlock env other) state fun _ after =>
      ∃ middle, rel (state.enter env .block) middle ∧ middle.AtEnd ∧
        after = (middle.advance 1).leave state.arena.scopes.size := by
  have shorter : (state.enter env .block).rest.length < state.rest.length := State.length_advance front
  have statements := readStatements_agree course parts state.place _ false (Nat.lt_succ_self _)
    (show (state.enter env .block).rest.length < bound by omega)
  refine .look here (run_here_eq state) (.enter (.look remaining rfl (statements.bind fun returns after ended => ?_)))
  obtain ⟨middle, inside, ends, rfl⟩ := ended
  exact ⟨rfl, middle, inside, ends, rfl⟩

variable (plain : isBrace token = false)

include plain

theorem readIf_agree : AgreeBy rel (readIf env sub) (readIf env other) state := by
  have shorter := State.length_advance front
  refine .bump (((readsWalk_readCondition env "if").agree _).bind fun _ middle condition => ?_)
  have le := condition.forward.length_le
  have walks := (bump_walks front plain).trans condition
  refine (sub_agree course parts false walks (by omega)).bind fun returns behind begun => ?_
  have leBehind := (course.forward begun).length_le
  refine .word (fun word more next isWord => .bump ?_) (.pure begun)
  have shorterStill := State.length_advance next
  refine (sub_agree course parts false (bump_walks next (isBrace_of_isWord isWord)) (by omega)).bind ?_
  exact fun _ _ more => .pure (course.trans begun more)

theorem readDo_agree : AgreeBy rel (readDo env sub) (readDo env other) state := by
  have shorter := State.length_advance front
  have ends (returns : Bool) : ReadsWalk (do
      recoverUnless (← expectPunct ";" "after 'do ... while (...)'")
      return returns) :=
    (expectPunct_walks (by decide)).bind fun closed => (readsWalk_recoverUnless closed).bind fun _ => .pure _
  refine .bump ((sub_agree course parts false (bump_walks front plain) (by omega)).bind fun returns behind begun => ?_)
  refine .word (fun word more next isWord => .bump ?_) ?_
  · refine ((readsWalk_readCondition env "do-while").bind (fun _ => ends returns)).agree _ |>.mono fun _ _ walks => ?_
    exact course.trans begun (course.bodies ((bump_walks next (isBrace_of_isWord isWord)).trans walks).bodies)
  · refine ((readsPhrase_reportHere _).walk.bind (fun _ => ends returns)).agree behind |>.mono fun _ _ walks => ?_
    exact course.trans begun (course.bodies walks.bodies)

theorem readFor_agree : AgreeBy rel (readFor env sub) (readFor env other) state := by
  have shorter : (state.enter env .forHeader).rest.length < state.rest.length := State.length_advance front
  -- The statement that is repeated, behind the header.
  have repeated {middle : State} (header : Walks (state.enter env .forHeader) middle) :
      Agree (do discard (sub false); closeScope state.arena.scopes.size (← prevEnd))
        (do discard (other false); closeScope state.arena.scopes.size (← prevEnd)) middle
        fun _ after => rel state after := by
    have le := header.forward.length_le
    refine (discard_sub_agree course parts header (by omega)).bind fun _ last inside => ?_
    exact .look prevEnd rfl ⟨rfl, course.loop front plain inside⟩
  refine .look here (run_here_eq state) (.enter ?_)
  refine ((expectPunct_walks (by decide)).agree (state.enter env .forHeader)).bind fun opened middle walks => ?_
  split
  · exact ((readsWalk_readForHeader env).agree middle).bind fun _ _ header => repeated (walks.trans header)
  · exact repeated walks

theorem readWhile_agree :
    AgreeBy rel (do bump; readCondition env "while"; discard (sub false); return false)
      (do bump; readCondition env "while"; discard (other false); return false) state := by
  have shorter := State.length_advance front
  refine .bump (((readsWalk_readCondition env "while").agree _).bind fun _ middle condition => ?_)
  have le := condition.forward.length_le
  refine (discard_sub_agree course parts ((bump_walks front plain).trans condition) (by omega)).bind ?_
  exact fun _ _ passed => .pure passed

omit plain

theorem readWordStatement_agree (inBlock : Bool) (ident : token.isIdent) :
    AgreeBy rel (readWordStatement env sub inBlock token) (readWordStatement env other inBlock token) state := by
  have plain := isBrace_of_isIdent ident
  have leaf {scan : Scan Unit} (yields : Yields scan state fun _ after => Bodies env state after) (value : Bool) :
      AgreeBy rel (do scan; return value) (do scan; return value) state :=
    ⟨rfl, yields.mono fun _ _ bodies => course.bodies bodies⟩
  unfold readWordStatement
  split
  · exact readIf_agree course parts front small plain
  · exact readWhile_agree course parts front small plain
  · exact readDo_agree course parts front small plain
  · exact (readFor_agree course parts front small plain).bind fun _ _ passed => .pure passed
  · exact leaf ((readReturn_walks inBlock front plain).mono fun _ _ walks => walks.bodies) true
  · exact leaf ((readStateChange_walks inBlock front plain).mono fun _ _ walks => walks.bodies) false
  · exact leaf (readJump_bodies env inBlock front plain) false
  · exact .report (.bump (.pure (course.bodies (((Walks.refl state).report _).trans (bump_walks front plain)).bodies)))
  · exact leaf (readPlain_bodies inBlock front ident) false

end Front

/-- The statements inside a statement begin behind its first token. -/
theorem readStatementWith_agree (small : state.rest.length < bound + 1) (inBlock : Bool) :
    AgreeBy (Takes rel) (readStatementWith env sub inBlock) (readStatementWith env other inBlock) state := by
  refine .look peek rfl ?_
  cases front : state.rest with
  | nil => exact .pure ⟨course.bodies (.refl state), by rw [front]; nofun⟩
  | cons token =>
    dsimp only [head?_cons]
    split
    · next opens =>
      refine (readBlock_agree course parts front small).mono fun _ after made => ?_
      obtain ⟨middle, inside, ends, rfl⟩ := made
      refine ⟨course.block front opens inside ends, fun _ => ?_⟩
      exact Nat.lt_of_le_of_lt ((drop_suffix ..).trans (course.forward inside)).length_le (State.length_advance front)
    · next notOpening =>
      suffices passed : AgreeBy rel _ _ state from
        passed.mono fun _ _ passed => ⟨passed, fun opens => absurd opens (by rw [front]; exact notOpening)⟩
      have leaf {scan : Scan Unit} (yields : Yields scan state fun _ after => Bodies env state after) :
          AgreeBy rel (do scan; return false) (do scan; return false) state :=
        ⟨rfl, yields.mono fun _ _ bodies => course.bodies bodies⟩
      have plain {sign : String} (isSign : token.isPunct sign) (other : sign = ";" ∨ sign = "@") :
          isBrace token = false := by
        rw [isBrace, isPunct_eq isSign, isPunct_eq isSign]
        rcases other with rfl | rfl <;> decide
      split
      · next semicolon => exact leaf (bump_walks front (plain semicolon (.inl rfl))).bodies
      · split
        · next mark => exact leaf (readLabel_bodies env front (plain mark (.inr rfl)))
        · split
          · next ident => exact readWordStatement_agree course parts front small inBlock ident
          · exact leaf ((readsWalk_readExprStatement env).bodies env state)

end Statements

theorem readStatementWithin_takes (env : Env) (depth : Nat) :
    AgreeBelow (Takes (Bodies env)) depth (readStatementWithin env depth) (readStatementWithin env depth) := by
  induction depth with
  | zero => exact fun _ _ small => absurd small (Nat.not_lt_zero _)
  | succ _ ih =>
    exact fun inBlock _ small => readStatementWith_agree (bodies_course env) ih small inBlock

theorem yields_exchangeCallable {callable : Option Callable} {post : Option Callable → State → Prop} :
    Yields (exchangeCallable callable) state post ↔ post state.callable (state.within callable) := .rfl

theorem readBody_bodies (env : Env) {opening : Token} (front : state.rest = opening :: rest) :
    Yields (readBody env) state fun _ after =>
      ∃ used middle, Body env used (state.enter env .block) middle ∧ middle.AtEnd ∧
        after = (middle.advance 1).leave state.arena.scopes.size := by
  rw [readBody, yields_bind, yields_remaining]
  refine (readBlock_agree (bodies_course env) (readStatementWithin_takes env _) front (by omega)).holds.mono ?_
  rintro _ _ ⟨middle, ⟨used, inside⟩, ends, rfl⟩
  exact ⟨used, middle, inside, ends, rfl⟩

end ScriptLint.Analysis
