import ScriptLint.Proofs.Acceptance
import ScriptLint.Proofs.Bodies
import ScriptLint.Proofs.ExprRendering

/-!
# Whether every path returns

A body that is read without complaint is spelled by one tree of statements, and reading it tells whether every path
through that tree returns. Without jumps this is exact: some execution completes if and only if it is not told so, and
that is when a function of a type is reported.
-/

namespace ScriptLint.Analysis

open List

/-! ## Statements without statements inside -/

/-- A sign stands in front of some tokens. -/
def Signed (sign : String) (tokens rest : List Token) : Prop :=
  ∃ token, tokens = token :: rest ∧ token.isPunct sign = true

/-- An expression, or what is spelled like one, and the sign behind it. -/
def UpTo (sign : String) (tokens rest : List Token) : Prop :=
  ∃ token, Skips tokens (token :: rest) ∧ token.isPunct sign = true

abbrev Ended : List Token → List Token → Prop := UpTo ";"

variable {token : Token} {sign : String} {tokens rest : List Token}

theorem UpTo.cons (upTo : UpTo sign tokens rest) (plain : isPart token) : UpTo sign (token :: tokens) rest := by
  obtain ⟨last, skips, ends⟩ := upTo
  exact ⟨last, .part plain skips, ends⟩

theorem Skips.upTo {middle : List Token} (skips : Skips tokens middle) (upTo : UpTo sign middle rest) :
    UpTo sign tokens rest := by
  obtain ⟨last, more, ends⟩ := upTo
  exact ⟨last, skips.trans more, ends⟩

theorem Signed.upTo (signed : Signed sign tokens rest) : UpTo sign tokens rest := by
  obtain ⟨token, rfl, isSign⟩ := signed
  exact ⟨token, .refl _, isSign⟩

/-- No brace stands at the front of an expression. -/
theorem Ended.isBrace_eq_false (ended : Ended (token :: tokens) rest) : isBrace token = false := by
  obtain ⟨semicolon, skips, ends⟩ := ended
  cases skips with
  | refl => rw [isBrace, isPunct_eq ends, isPunct_eq ends]; decide
  | part plain =>
    simp only [isPart, any_cons, any_nil, Bool.or_false, Bool.not_eq_true', Bool.or_eq_false_iff] at plain
    rw [isBrace, plain.2.2.2.1, plain.2.2.2.2]
    rfl
  | group opens => rw [isBrace, isPunct_eq opens, isPunct_eq opens]; decide

section Simple

variable {state : State}

variable {context : String} {keyword : Token} {rest : List Token}

/-- A sign that has to come, or else something is skipped. -/
theorem readsSign_close : ReadsBy (Signed sign) (do recoverUnless (← expectPunct sign context)) := by
  refine fun state => .expect (fun token front isSign => ?_) fun after =>
    (accepts_recoverUnless false after).mono fun _ _ _ => trivial
  refine (accepts_recoverUnless true _).mono fun _ after same => ?_
  rw [same rfl]
  exact ⟨token, front, isSign⟩

theorem readsUpTo_close : ReadsBy (UpTo sign) (do recoverUnless (← expectPunct sign context)) :=
  fun state => (readsSign_close state).mono fun _ _ => Signed.upTo

theorem readsNothing_checkDeadCode (env : Env) (stop : Nat) : ReadsNothing (checkDeadCode env stop) := by
  refine fun state => .step get rfl rfl ?_
  dsimp only
  split
  · exact accepts_report rfl fun _ => rfl
  · exact accepts_pure rfl

theorem accepts_endTerminator (env : Env) (inBlock closed : Bool) :
    Accepts (endTerminator env inBlock closed) state fun _ after => closed → state.rest = after.rest := by
  unfold endTerminator
  split
  · next broken => exact accepts_of_findings rfl fun there => by rw [there] at broken; cases broken
  · split
    · exact .step prevEnd rfl rfl ((readsNothing_checkDeadCode env _ state).mono fun _ _ same _ => same)
    · exact accepts_pure fun _ => rfl

/-- The end of a statement behind which nothing is reached. -/
theorem readsUpTo_terminator (env : Env) (inBlock : Bool) {between : Bool → Scan Unit}
    (keeps : ∀ closed, ReadsNothing (between closed)) :
    ReadsBy Ended (do
      let closed ← expectPunct ";" context
      between closed
      endTerminator env inBlock closed) := by
  refine fun state => .expect (fun semicolon front ends => ?_) fun after => ?_
  · refine (keeps true _).bind fun _ _ => (accepts_endTerminator env inBlock true).mono fun _ _ same kept => ?_
    rw [front, kept, same rfl]
    exact Signed.upTo ⟨_, rfl, ends⟩
  · exact (keeps false _).bind fun _ _ => (accepts_endTerminator env inBlock false).mono fun _ _ _ _ => trivial

theorem readIdent_accepts {problem : Problem} (malformed : problem.code = .malformed) :
    Accepts (readIdent problem) state fun found after =>
      ∃ name, found = some name ∧ state.rest = name :: after.rest ∧ name.isIdent := by
  have missing : Accepts (do reportHere problem; recover; return (none : Option Token)) state fun found after =>
      ∃ name, found = some name ∧ state.rest = name :: after.rest ∧ name.isIdent :=
    .refuseHere malformed fun after => .step recover rfl rfl (accepts_pure trivial)
  refine .step peek rfl rfl ?_
  split
  · next token found =>
    obtain ⟨rest, front⟩ := head?_eq_some_iff.mp found
    split
    · next ident => exact .step bump rfl rfl (accepts_pure ⟨token, rfl, State.rest_of_front front, ident⟩)
    · exact missing
  · exact missing

theorem returnFinding_harmless (callable : Callable) (keyword : Span) (value : Option Typed) :
    Harmless (returnFinding callable keyword value) := by
  rw [returnFinding.eq_def]
  split
  · split
    · exact harmless_some rfl
    · split
      · exact harmless_none
      · exact harmless_some rfl
  · split
    · exact harmless_none
    · exact harmless_some rfl

theorem readsUpTo_endReturn (env : Env) (inBlock : Bool) (keyword : Token) (value : Option Typed) :
    ReadsBy Ended (do
      let closed ← expectPunct ";" "after 'return'"
      note ((← get).callable.bind fun callable => returnFinding callable keyword.span value)
      endTerminator env inBlock closed) := by
  refine @readsUpTo_terminator _ env inBlock _ fun _ state => .step get rfl rfl (readsNothing_note ?_ state)
  cases state.callable with
  | none => exact harmless_none
  | some callable => exact returnFinding_harmless callable keyword.span value

theorem readReturn_accepts (env : Env) (inBlock : Bool) (front : state.rest = keyword :: rest)
    (ident : keyword.isIdent) :
    Accepts (readReturn env inBlock keyword) state fun _ after => Ended state.rest after.rest := by
  refine .bump front fun _ => .step (atPunct ";") rfl rfl ?_
  rw [State.rest_of_front front]
  suffices ended : Accepts _ (state.advance 1) fun _ after => Ended (state.advance 1).rest after.rest from
    ended.mono fun _ _ ended => ended.cons (isPart_of_isIdent ident)
  split
  · exact readsUpTo_endReturn env inBlock keyword none _
  · rw [map_eq_pure_bind]
    exact (readsSkip_readExpr env).bind (fun value => readsUpTo_endReturn env inBlock keyword (some value)) Skips.upTo _

/-- A keyword or a mark, a name, and what ends in a semicolon behind it. -/
theorem accepts_named {next : Option Token → Scan Unit} {problem : Problem} {mark : Token}
    (malformed : problem.code = .malformed) (front : state.rest = mark :: rest) (plain : isPart mark)
    (missing : ∀ after, Accepts (next none) after fun _ _ => True)
    (ends : ∀ name, ReadsBy Ended (next (some name))) :
    Accepts (do bump; next (← readIdent problem)) state fun _ after => Ended state.rest after.rest := by
  refine .bump front fun _ => (readIdent_accepts malformed).bind fun found middle => ?_
  rw [State.rest_of_front front]
  cases found with
  | none =>
    refine (missing middle).mono fun _ _ _ named => ?_
    obtain ⟨name, absent, -⟩ := named
    cases absent
  | some name =>
    refine (ends name middle).mono fun _ after ended named => ?_
    obtain ⟨_, same, behind, ident⟩ := named
    cases same
    rw [behind]
    exact (ended.cons (isPart_of_isIdent ident)).cons plain

theorem readStateChange_accepts (env : Env) (inBlock : Bool) (front : state.rest = keyword :: rest)
    (ident : keyword.isIdent) :
    Accepts (readStateChange env inBlock) state fun _ after => Ended state.rest after.rest := by
  have ends : ReadsBy Ended (do endTerminator env inBlock (← expectPunct ";" "after the state change")) :=
    readsUpTo_terminator env inBlock fun _ => .pure .refl ()
  refine accepts_named rfl front (isPart_of_isIdent ident) (fun _ => accepts_pure trivial) fun name before => ?_
  refine .step get rfl rfl ?_
  dsimp only
  split
  · exact (readsNothing_addRef _ _ _).discard.andThen (fun _ => ends) before
  · exact (readsNothing_addRef _ _ _).discard.andThen
      (fun _ => (readsNothing_report _ rfl).andThen fun _ => ends) before

theorem readJump_accepts (env : Env) (inBlock : Bool) (front : state.rest = keyword :: rest)
    (ident : keyword.isIdent) :
    Accepts (readJump env inBlock) state fun _ after => Ended state.rest after.rest :=
  accepts_named rfl front (isPart_of_isIdent ident) (fun _ => accepts_pure trivial) fun _ =>
    (readsNothing_addRef _ _ _).andThen fun _ => (readsNothing_of_same fun _ => ⟨rfl, rfl⟩).andThen fun _ =>
      readsUpTo_terminator env inBlock fun _ => .pure .refl ()

theorem readsNothing_declareLabel (mark : Span) (name : Token) : ReadsNothing (declareLabel mark name) := by
  intro state
  refine .step get rfl rfl ?_
  dsimp only
  split
  · exact readsNothing_report _ rfl _
  · split
    · exact readsNothing_report _ rfl _
    · exact accepts_of_findings rfl rfl

theorem readLabel_accepts {mark : Token} (front : state.rest = mark :: rest) (plain : isPart mark) :
    Accepts readLabel state fun _ after => Ended state.rest after.rest := by
  exact .place (accepts_named rfl front plain (fun _ => accepts_pure trivial) fun name =>
    (readsNothing_declareLabel _ name).andThen fun _ => readsUpTo_close)

theorem readsUpTo_readExprStatement (env : Env) : ReadsBy Ended (readExprStatement env) :=
  (readsSkip_readExpr env).discard.bind (fun _ => readsUpTo_close) Skips.upTo

theorem readsNothing_bindName (scope : Nat) (name : String) (id : Nat) : ReadsNothing (bindName scope name id) := by
  intro state
  refine .step get rfl rfl ?_
  split
  · exact accepts_pure rfl
  · exact accepts_of_findings rfl rfl

theorem readsNothing_declare (kind : DeclKind) (name : Token) (type : SemType) (full : Span) (scope : Nat) :
    ReadsNothing (declare kind name type full scope) := by
  rw [declare]
  split
  · exact (readsNothing_report _ rfl).andThen fun _ => .pure .refl _
  · refine (readsNothing_of_same fun _ => ⟨rfl, rfl⟩).andThen fun id => ?_
    refine (readsNothing_bindName scope name.text id).andThen fun bound => ?_
    split
    · exact (readsNothing_of_same fun _ => ⟨rfl, rfl⟩).andThen fun _ => (readsNothing_report _ rfl).andThen fun _ =>
        .pure .refl _
    · exact readsNothing_of_same fun _ => ⟨rfl, rfl⟩

theorem readsUpTo_readVarDecl (env : Env) (type : SemType) (name : Token) (start : Nat) :
    ReadsBy Ended (readVarDecl env type name start) := by
  have ends : ReadsBy Ended (do
      let stop := (← here).stop
      let _ ← declare .var name type ⟨start, max stop name.span.stop⟩ (← currentScope)
      recoverUnless (← expectPunct ";" "after the declaration")) :=
    fun _ => .place (.step currentScope rfl rfl ((readsNothing_declare _ _ _ _ _).andThen (fun _ => readsUpTo_close) _))
  refine fun state => .step (atOp "=") rfl rfl ?_
  split
  · next isOp =>
    obtain ⟨op, rest, front, equals⟩ := exists_of_head?_any isOp
    refine .bump front fun _ => ?_
    rw [State.rest_of_front front]
    refine (readsSkip_readExpr env _).bind fun value middle =>
      .mono ?_ fun _ after (ended : Ended middle.rest after.rest) skips => (skips.upTo ended).cons (isPart_of_op equals)
    split
    · exact (readsNothing_report _ rfl).andThen (fun _ => ends) middle
    · exact ends middle
  · exact ends state

end Simple

/-! ## Conditions and headers -/

section Headers

variable {state : State}

theorem readsNothing_checkCondition (what : String) (condition : Typed) :
    ReadsNothing (checkCondition what condition) := by
  have harmless := conditionFindings_harmless what condition
  unfold checkCondition
  generalize conditionFindings what condition = findings at harmless
  induction findings with
  | nil => exact .pure .refl _
  | cons _ _ ih =>
    obtain ⟨first, later⟩ := forall_mem_cons.mp harmless
    exact (readsNothing_note first).andThen fun _ => ih later

theorem readsEnclosed_readCondition (env : Env) (what : String) : ReadsBy Enclosed (readCondition env what) := by
  refine fun state => .expect (fun opening front opens => ?_) fun after => accepts_pure trivial
  have closes : ReadsBy (UpTo ")") (do
      let condition ← readExpr env
      checkCondition what condition
      recoverUnless (← expectPunct ")" s!"to close the '{what}' condition")) :=
    (readsSkip_readExpr env).bind (fun condition => (readsNothing_checkCondition what condition).andThen fun _ =>
      readsUpTo_close) Skips.upTo
  refine (closes _).mono fun _ after closed => ?_
  obtain ⟨closing, skips, closes⟩ := closed
  rw [front]
  exact .mk opens skips closes

theorem readsSkip_readExprList (env : Env) (close : String) (limit : Nat) :
    ReadsBy Skips (readExprList env close limit) := by
  induction limit with
  | zero => exact .pure .refl _
  | succ _ ih =>
    intro state
    refine .step peek rfl rfl ?_
    split
    · exact accepts_pure (.refl _)
    · refine (readsSkip_readExpr env).bind (fun _ => (readsSkip_eatPunct (by decide)).bind (fun eaten => ?_) .trans)
        .trans state
      split
      · exact ih
      · exact .pure .refl _

/-- The last part of a header, up to the parenthesis behind it. -/
theorem readsUpTo_lastPart (env : Env) :
    ReadsBy (UpTo ")") (do
      readExprList env ")" ((← remaining) + 1)
      recoverUnless (← expectPunct ")" "to close the loop header")) :=
  fun state => .step remaining rfl rfl
    ((readsSkip_readExprList env ")" _).bind (fun _ => readsUpTo_close) Skips.upTo state)

/-- The second part of a header that begins at a semicolon. -/
theorem reads_laterParts (env : Env) :
    ReadsBy (fun tokens rest => ∃ behind, Signed ";" tokens behind ∧ UpTo ")" behind rest) (do
      discard (expectPunct ";" "after the loop condition")
      readExprList env ")" ((← remaining) + 1)
      recoverUnless (← expectPunct ")" "to close the loop header")) := by
  refine fun state => .dropped (.expect (fun second front ends => ?_) fun after => ?_)
  · exact (readsUpTo_lastPart env _).mono fun _ _ last => ⟨_, ⟨second, front, ends⟩, last⟩
  · exact (readsUpTo_lastPart env _).mono fun _ _ _ => trivial

theorem reads_conditionPart (env : Env) :
    ReadsBy (fun tokens rest => ∃ behind, Ended tokens behind ∧ UpTo ")" behind rest) (do
      if !(← atPunct ";") then
        let condition ← readExpr env
        checkCondition "for" condition
      discard (expectPunct ";" "after the loop condition")
      readExprList env ")" ((← remaining) + 1)
      recoverUnless (← expectPunct ")" "to close the loop header")) := by
  refine fun state => .step (atPunct ";") rfl rfl ?_
  split
  · refine (readsSkip_readExpr env state).bind fun condition middle => ?_
    refine ((readsNothing_checkCondition "for" condition).andThen (fun _ => reads_laterParts env) middle).mono
      fun _ _ later skips => ?_
    exact later.imp fun _ => .imp_left fun signed => skips.upTo signed.upTo
  · exact (reads_laterParts env state).mono fun _ _ later => later.imp fun _ => .imp_left Signed.upTo

theorem reads_readForHeader (env : Env) :
    ReadsBy (fun tokens rest => ∀ opening : Token, opening.isPunct "(" → Header (opening :: tokens) rest)
      (readForHeader env) := by
  refine fun state => .step remaining rfl rfl ((readsSkip_readExprList env ";" _ state).bind fun _ middle => ?_)
  refine .dropped (.expect (fun first front ends => ?_) fun after =>
    (reads_conditionPart env _).mono fun _ _ _ => trivial)
  refine (reads_conditionPart env _).mono fun _ after later skips opening opens => ?_
  obtain ⟨behind, ⟨second, condition, endsToo⟩, closing, step, closes⟩ := later
  rw [front] at skips
  exact .mk opens skips ends condition endsToo step closes

end Headers

/-! ## Statements -/

/-- What was read is a statement, unless the document ends there. -/
def Said (tokens rest : List Token) (returned : Bool) : Prop :=
  rest = [] ∨ ∃ stmt : Stmt .one, Spelled stmt tokens rest ∧ stmt.returns = returned

theorem Ended.said (ended : Ended tokens rest) (kind : Simple) (head : headOf tokens = some (.simple kind)) :
    Said tokens rest (kind == .exit) := by
  obtain ⟨semicolon, value, ends⟩ := ended
  exact .inr ⟨.simple kind, .simple head value ends, rfl⟩

/-- A reader of statements says what it accepts, where fewer tokens are left than some number. -/
def Tells (bound : Nat) (sub : StatementReader) : Prop :=
  ∀ inBlock state, Accepts (sub inBlock) state fun returned after => state.rest.length < bound →
    Said state.rest after.rest returned

section Parts

variable {env : Env} {sub : StatementReader} {bound : Nat} (parts : Tells bound sub) {state : State}

include parts

theorem readStatements_accepts (opening : Span) (limit : Nat) (returns : Bool) :
    Accepts (readStatements sub opening limit returns) state fun result after =>
      state.rest.length < limit → state.rest.length < bound →
        ∃ body : Stmt .many, Spelled body state.rest after.rest ∧ result = (returns || body.returns) := by
  induction limit generalizing state returns with
  | zero => exact accepts_pure fun enough => absurd enough (Nat.not_lt_zero _)
  | succ _ ih =>
    refine .step peek rfl rfl ?_
    split
    · exact .refuse rfl fun _ => accepts_pure trivial
    · next token found =>
      obtain ⟨rest, front⟩ := head?_eq_some_iff.mp found
      split
      · next closes =>
        refine .bump front fun behind => accepts_pure fun _ _ => ⟨.done, ?_, (Bool.or_false _).symm⟩
        rw [State.rest_of_front front]
        exact .done (headOf_of_isPunct closes _)
      · refine .step remaining rfl rfl ((parts true state).bind fun returned middle => ?_)
        refine .step remaining rfl rfl ?_
        split
        · next same =>
          -- A statement that is accepted passes over a token.
          have equal : middle.rest.length = state.rest.length := by simpa using same
          refine .step bump rfl rfl ((ih _).mono fun result after _ said enough inside => ?_)
          rcases said inside with none | ⟨stmt, one, -⟩
          · rw [none, front] at equal
            cases equal
          · exact absurd one.length_lt (by omega)
        · refine (ih _).mono fun result after later said enough inside => ?_
          rcases said inside with none | ⟨stmt, one, rfl⟩
          · rw [front, length_cons] at enough
            rw [none, length_nil] at later
            obtain ⟨body, many, -⟩ := later (by omega) (by omega)
            exact absurd many.length_lt (Nat.not_lt_zero _)
          · have fewer := one.length_lt
            obtain ⟨body, many, rfl⟩ := later (by omega) (by omega)
            exact ⟨.next stmt body, .next one many, (Bool.or_assoc ..)⟩

section Front

variable {token : Token} {rest : List Token} (front : state.rest = token :: rest)

include front

theorem readBlock_accepts (head : headOf state.rest = some .block) :
    Accepts (readBlock env sub) state fun returned after => state.rest.length ≤ bound →
      ∃ body : Stmt .many, Spelled (.block body) state.rest after.rest ∧ body.returns = returned := by
  rw [State.rest_of_front front] at head ⊢
  refine .place (.step (openScope env .block state.place.start) rfl rfl ?_)
  refine .bump (show _ = token :: rest from front) fun _ => .step remaining rfl rfl ?_
  refine (readStatements_accepts parts _ _ false).bind fun returns middle => .step prevEnd rfl rfl ?_
  refine .step (closeScope _ _) rfl rfl (accepts_pure fun many inside => ?_)
  obtain ⟨body, spelled, same⟩ := many (Nat.lt_succ_self _) inside
  exact ⟨body, .block head spelled, same.symm⟩

theorem readIf_accepts (head : headOf state.rest = some .branch) :
    Accepts (readIf env sub) state fun returned after => state.rest.length ≤ bound →
      Said state.rest after.rest returned := by
  rw [State.rest_of_front front] at head ⊢
  refine .bump front fun _ => (readsEnclosed_readCondition env "if" _).bind fun _ middle => ?_
  refine (parts false middle).bind fun returns behind => .step (atWord "else") rfl rfl ?_
  split
  · next found =>
    obtain ⟨otherwise, more, frontToo, word⟩ := exists_of_head?_any found
    refine .bump frontToo fun _ => (parts false _).bind fun other last => ?_
    refine accepts_pure fun second first condition inside => ?_
    have fewer := condition.length_lt
    rw [length_cons] at inside
    rw [State.rest_of_front frontToo] at first
    rcases first (by omega) with none | ⟨stmt, one, rfl⟩
    · cases none
    · have fewerToo := one.length_lt
      rw [length_cons] at fewerToo
      rcases second (by omega) with none | ⟨otherStmt, another, rfl⟩
      · exact .inl none
      · exact .inr ⟨.branches stmt otherStmt, .branches head condition one word another, rfl⟩
  · next alone =>
    refine accepts_pure fun first condition inside => ?_
    have fewer := condition.length_lt
    rw [length_cons] at inside
    rcases first (by omega) with none | ⟨stmt, one, rfl⟩
    · exact .inl none
    · exact .inr ⟨.branch stmt, .branch head condition one (Bool.eq_false_iff.mpr alone), rfl⟩

theorem readWhile_accepts (head : headOf state.rest = some (.loop .conditional)) :
    Accepts (do bump; readCondition env "while"; discard (sub false); return false) state fun returned after =>
      state.rest.length ≤ bound → Said state.rest after.rest returned := by
  rw [State.rest_of_front front] at head ⊢
  refine .bump front fun _ => (readsEnclosed_readCondition env "while" _).bind fun _ middle => .dropped ?_
  refine (parts false middle).bind fun returns behind => accepts_pure fun body condition inside => ?_
  have fewer := condition.length_lt
  rw [length_cons] at inside
  rcases body (by omega) with none | ⟨stmt, one, -⟩
  · exact .inl none
  · exact .inr ⟨.loop .conditional stmt, .conditional head condition one, rfl⟩

theorem readDo_accepts (head : headOf state.rest = some .doLoop) :
    Accepts (readDo env sub) state fun returned after => state.rest.length ≤ bound →
      Said state.rest after.rest returned := by
  have ends (returns : Bool) (before : State) :
      Accepts (do recoverUnless (← expectPunct ";" "after 'do ... while (...)'"); return returns) before
        fun result after => result = returns ∧ Signed ";" before.rest after.rest :=
    (readsSign_close before).bind fun _ _ => accepts_pure fun signed => ⟨rfl, signed⟩
  rw [State.rest_of_front front] at head ⊢
  refine .bump front fun _ => (parts false _).bind fun returns middle => .step (atWord "while") rfl rfl ?_
  split
  · next found =>
    obtain ⟨again, more, frontToo, word⟩ := exists_of_head?_any found
    refine .bump frontToo fun _ => (readsEnclosed_readCondition env "do-while" _).bind fun _ behind => ?_
    refine (ends returns behind).mono fun result after ended condition body inside => ?_
    obtain ⟨rfl, semicolon, last, isEnd⟩ := ended
    rw [State.rest_of_front frontToo] at body
    rw [last] at condition
    rcases body inside with none | ⟨stmt, one, rfl⟩
    · cases none
    · exact .inr ⟨.doLoop stmt, .doLoop head one word condition isEnd, rfl⟩
  · exact .refuseHere rfl fun after => (ends returns after).mono fun _ _ _ => trivial

theorem readFor_accepts (head : headOf state.rest = some (.loop .counted)) :
    Accepts (readFor env sub) state fun _ after => state.rest.length ≤ bound → Said state.rest after.rest false := by
  have leaves (scope : Nat) (before : State) :
      Accepts (do discard (sub false); closeScope scope (← prevEnd)) before fun _ after =>
        before.rest.length < bound → after.rest = [] ∨ ∃ stmt : Stmt .one, Spelled stmt before.rest after.rest := by
    refine .dropped ((parts false before).bind fun _ behind => .step prevEnd rfl rfl ?_)
    refine accepts_of_findings rfl fun said inside => ?_
    exact (said inside).imp_right fun spelled => spelled.imp fun _ one => one.1
  rw [State.rest_of_front front] at head ⊢
  refine .place (.step (openScope env .forHeader state.place.start) rfl rfl ?_)
  refine .bump (show _ = token :: rest from front) fun _ => ?_
  refine .expect (fun opening frontToo opens => ?_) fun after => (leaves _ after).mono fun _ _ _ => trivial
  refine (reads_readForHeader env _).bind fun _ middle => ?_
  refine (leaves _ middle).mono fun _ after body header inside => ?_
  have behind : (state.advance 1).rest = opening :: _ := frontToo
  rw [behind] at head inside ⊢
  have whole := header opening opens
  have fewer := whole.length_lt
  rcases body (Nat.lt_of_lt_of_le fewer (Nat.le_of_succ_le inside)) with none | ⟨stmt, one⟩
  · exact .inl none
  · exact .inr ⟨.loop .counted stmt, .counted head whole one, rfl⟩

omit parts in
/-- A statement without statements inside that begins with no keyword. -/
theorem readPlain_accepts (inBlock : Bool) (ident : token.isIdent) :
    Accepts (readPlain env inBlock token) state fun _ after => Ended state.rest after.rest := by
  refine .step get rfl rfl ?_
  split
  · next type name declared =>
    obtain ⟨first, more, frontToo, named⟩ := exists_of_declarationAt? declared
    obtain ⟨rfl, rfl⟩ := List.cons.inj (front.symm.trans frontToo)
    split
    · exact .refuse rfl fun after =>
        .step (advance 2) rfl rfl ((readsUpTo_readVarDecl env type name _ _).mono fun _ _ _ => trivial)
    · refine .step (advance 2) rfl rfl ((readsUpTo_readVarDecl env type name _ _).mono fun _ after ended => ?_)
      have behind : (state.advance 2).rest = more := by
        rw [State.advance, front]
        rfl
      rw [behind] at ended
      rw [front]
      exact (ended.cons (isPart_of_isIdent named)).cons (isPart_of_isIdent ident)
  · exact readsUpTo_readExprStatement env state

theorem readWordStatement_accepts (inBlock : Bool) (ident : token.isIdent) :
    Accepts (readWordStatement env sub inBlock token) state fun returned after => state.rest.length ≤ bound →
      Said state.rest after.rest returned := by
  have head : headOf state.rest = wordHead state.rest token.text := by
    rw [front]
    exact if_pos ident
  unfold readWordStatement
  split
  · next text => exact readIf_accepts parts front (by rw [head, text]; rfl)
  · next text => exact readWhile_accepts parts front (by rw [head, text]; rfl)
  · next text => exact readDo_accepts parts front (by rw [head, text]; rfl)
  · next text =>
    exact (readFor_accepts parts front (by rw [head, text]; rfl)).bind fun _ _ => accepts_pure id
  · next text =>
    refine (readReturn_accepts env inBlock front ident).bind fun _ _ => accepts_pure fun ended _ => ?_
    exact ended.said .exit (by rw [head, text]; rfl)
  · next text =>
    refine (readStateChange_accepts env inBlock front ident).bind fun _ _ => accepts_pure fun ended _ => ?_
    exact ended.said .stateChange (by rw [head, text]; rfl)
  · next text =>
    refine (readJump_accepts env inBlock front ident).bind fun _ _ => accepts_pure fun ended _ => ?_
    exact ended.said .jump (by rw [head, text]; rfl)
  · exact .refuse rfl fun after => .step bump rfl rfl (accepts_pure trivial)
  · refine (readPlain_accepts front inBlock ident).bind fun _ _ => accepts_pure fun ended _ => ?_
    -- None of the words that tell what a statement is.
    have plain : wordHead state.rest token.text =
        some (.simple (if (declarationAt? state.rest).isSome then .declaration else .expression)) := by
      rw [wordHead] <;> assumption
    have said := ended.said _ (head.trans plain)
    split at said
    · exact said
    · exact said

end Front

/-- A statement that is accepted is spelled as it was read. -/
theorem readStatementWith_accepts (inBlock : Bool) :
    Accepts (readStatementWith env sub inBlock) state fun returned after => state.rest.length ≤ bound →
      Said state.rest after.rest returned := by
  refine .step peek rfl rfl ?_
  split
  · next found => exact accepts_pure fun _ => .inl (head?_eq_none_iff.mp found)
  · next token found =>
    obtain ⟨rest, front⟩ := head?_eq_some_iff.mp found
    split
    · next opens =>
      refine (readBlock_accepts parts front ?_).mono fun _ after spelled inside => ?_
      · rw [front]
        exact headOf_of_isPunct opens rest
      · obtain ⟨body, many, same⟩ := spelled inside
        exact .inr ⟨.block body, many, same⟩
    split
    · next ends =>
      refine .bump front fun _ => accepts_pure fun _ => ?_
      rw [State.rest_of_front front]
      exact Ended.said ⟨_, .refl _, ends⟩ .empty (headOf_of_isPunct ends _)
    split
    · next isMark =>
      refine (readLabel_accepts front (isPart_of_isPunct isMark (by decide))).bind fun _ _ =>
        accepts_pure fun ended _ => ended.said .label ?_
      rw [front]
      exact headOf_of_isPunct isMark rest
    split
    · next ident => exact readWordStatement_accepts parts front inBlock ident
    · next notOpening notEnd notMark notIdent =>
      refine (readsUpTo_readExprStatement env state).bind fun _ _ =>
        accepts_pure fun ended _ => ended.said .expression ?_
      rw [front] at ended ⊢
      have notClosing := (Bool.or_eq_false_iff.mp ended.isBrace_eq_false).2
      rw [headOf, if_neg notIdent, if_neg notOpening, if_neg (Bool.eq_false_iff.mp notClosing), if_neg notEnd,
        if_neg notMark]

end Parts

theorem readStatementWithin_tells (env : Env) (depth : Nat) : Tells depth (readStatementWithin env depth) := by
  induction depth with
  | zero => exact fun _ _ => accepts_pure fun none => absurd none (Nat.not_lt_zero _)
  | succ _ ih =>
    exact fun inBlock state => (readStatementWith_accepts ih inBlock).mono fun _ _ said inside =>
      said (Nat.le_of_lt_succ inside)

theorem readBody_accepts (env : Env) {state : State} {opening : Token} (front : state.rest = opening :: rest)
    (opens : opening.isPunct "\x7b") :
    Accepts (readBody env) state fun returned after =>
      ∃ body : Stmt .many, Spelled (.block body) state.rest after.rest ∧ body.returns = returned := by
  refine .step remaining rfl rfl ?_
  refine (readBlock_accepts (readStatementWithin_tells env _) front ?_).mono fun _ _ spelled =>
    spelled (Nat.le_succ _)
  rw [front]
  exact headOf_of_isPunct opens rest

/-! ## Bodies of callables -/

theorem readsNothing_resolveJumps (callable : Option Callable) : ReadsNothing (resolveJumps callable) := by
  have one (labels : NameMap Nat) (jump : Jump) : ReadsNothing (resolveJump labels jump) := by
    unfold resolveJump
    split
    · exact readsNothing_of_same fun _ => ⟨rfl, rfl⟩
    · exact readsNothing_report _ rfl
  unfold resolveJumps
  split
  · next callable =>
    induction callable.jumps with
    | nil => exact .pure .refl _
    | cons jump _ ih => exact (one callable.labels jump).andThen fun _ => ih
  · exact .pure .refl _

/-- A statement stands in front of some tokens, and no other one does. -/
def SpelledOnly (stmt : Stmt .one) (tokens rest : List Token) : Prop :=
  Spelled stmt tokens rest ∧ ∀ other last, Spelled other tokens last → other = stmt ∧ last = rest

/-- The findings that a callable may not return. -/
def missingReturns (findings : List Finding) : List Finding :=
  findings.filter (·.problem.code == .missingReturn)

/-- A function of a type that can complete is what is reported. -/
theorem reports_iff (kind : DeclKind) (returns : SemType) {body : Stmt .many} (free : (Stmt.block body).jumps = false) :
    (kind == .func && returns != .void && !body.returns) ↔
      kind = .func ∧ returns ≠ .void ∧ (Stmt.block body).Runs .completed := by
  rw [Bool.and_eq_true_iff, Bool.and_eq_true_iff, beq_iff_eq, bne_iff_ne, Bool.not_eq_true', and_assoc,
    ← Stmt.returns_eq_false_iff free]
  rfl

/-- What reading the body of a callable adds to the findings. -/
theorem readCallableBody_accepts (env : Env) (kind : DeclKind) (returns : SemType) (name : Token) {state : State}
    {opening : Token} (front : state.rest = opening :: rest) (opens : opening.isPunct "\x7b") :
    Yields (readCallableBody env kind returns name) state fun _ after => ∃ added always,
      after.findings.toList = state.findings.toList ++ added ∧
      missingReturns added =
        (if kind == .func && returns != .void && !always then [⟨.missingReturn name.text returns, name.span⟩] else []) ∧
      ((∀ finding ∈ added, finding.problem.code ≠ .malformed) →
        ∃ body : Stmt .many, Spelled (.block body) state.rest after.rest ∧ body.returns = always) := by
  let callable : Callable := { returns, isEvent := kind == .event, name := name.text }
  have opened : (state.within (some callable)).rest = opening :: rest := front
  rw [readCallableBody, yields_bind, yields_exchangeCallable, yields_bind]
  refine Yields.mono (readBody_accepts env opened opens) fun always done accepts => ?_
  obtain ⟨early, sameEarly, othersEarly, holds⟩ := accepts
  rw [yields_bind, yields_prevEnd, yields_bind, yields_exchangeCallable, yields_bind]
  refine Yields.mono (readsNothing_resolveJumps _ _) fun _ resolved accepts => ?_
  obtain ⟨late, sameLate, othersLate, kept⟩ := accepts
  have whole : resolved.findings.toList = state.findings.toList ++ (early ++ late) := by
    rw [← append_assoc, ← show done.findings.toList = state.findings.toList ++ early from sameEarly]
    exact sameLate
  have others : missingReturns (early ++ late) = [] := filter_eq_nil_iff.mpr fun finding found => by
    simpa using forall_mem_append.mpr ⟨othersEarly, othersLate⟩ finding found
  have spelled (fine : ∀ finding ∈ early ++ late, finding.problem.code ≠ .malformed) :
      ∃ body : Stmt .many, Spelled (.block body) state.rest resolved.rest ∧ body.returns = always := by
    obtain ⟨fineEarly, fineLate⟩ := forall_mem_append.mp fine
    rw [← kept fineLate]
    exact holds fineEarly
  split
  · next reported =>
    let missing : Finding := ⟨.missingReturn name.text returns, name.span⟩
    refine ⟨(early ++ late) ++ [missing], always, ?_, ?_, fun fine => spelled (forall_mem_append.mp fine).1⟩
    · rw [← append_assoc, ← whole]
      exact Array.toList_push
    · rw [if_pos reported, missingReturns, filter_append]
      rw [missingReturns] at others
      rw [others]
      rfl
  · next unreported =>
    refine ⟨early ++ late, always, whole, ?_, spelled⟩
    rw [if_neg unreported]
    exact others

/-- A body that is accepted spells one tree. Without jumps, reading it tells that every path returns exactly if no
execution of the tree completes, and a function of a type is reported exactly if one does. -/
theorem missingReturn_iff_completes (env : Env) (kind : DeclKind) (returns : SemType) (name : Token) {state : State}
    {opening : Token} {rest : List Token} (front : state.rest = opening :: rest)
    (opens : opening.isPunct "\x7b" = true) :
    (Yields (readBody env) state fun returned after => ∃ added,
      after.findings.toList = state.findings.toList ++ added ∧
      ((∀ finding ∈ added, finding.problem.code ≠ .malformed) →
        ∃ body : Stmt .one, SpelledOnly body state.rest after.rest ∧
          (body.jumps = false → (returned = true ↔ ¬body.Runs .completed)))) ∧
    Yields (readCallableBody env kind returns name) state fun _ after => ∃ added,
      after.findings.toList = state.findings.toList ++ added ∧
      ((∀ finding ∈ added, finding.problem.code ≠ .malformed) →
        ∃ body : Stmt .one, SpelledOnly body state.rest after.rest ∧
          (body.jumps = false →
            (kind = .func ∧ returns ≠ .void ∧ body.Runs .completed →
              missingReturns added = [⟨.missingReturn name.text returns, name.span⟩]) ∧
            (¬(kind = .func ∧ returns ≠ .void ∧ body.Runs .completed) → missingReturns added = []))) := by
  constructor
  · refine Yields.mono (readBody_accepts env front opens) fun returned after accepts => ?_
    obtain ⟨added, same, -, holds⟩ := accepts
    refine ⟨added, same, fun fine => ?_⟩
    obtain ⟨body, spelled, rfl⟩ := holds fine
    refine ⟨.block body, ⟨spelled, fun _ _ => spelled.unique⟩, fun free => ?_⟩
    rw [← Stmt.returns_eq_false_iff free, Bool.not_eq_false]
    rfl
  · refine (readCallableBody_accepts env kind returns name front opens).mono fun _ after accepts => ?_
    obtain ⟨added, always, same, missing, holds⟩ := accepts
    refine ⟨added, same, fun fine => ?_⟩
    obtain ⟨body, spelled, rfl⟩ := holds fine
    refine ⟨.block body, ⟨spelled, fun _ _ => spelled.unique⟩, fun free => ?_⟩
    have reported := reports_iff kind returns free
    exact ⟨fun falls => missing.trans (if_pos (reported.mpr falls)),
      fun stays => missing.trans (if_neg (mt reported.mp stays))⟩

/-- The tokens of `{ if (a) if (b) return 1; else return 2; }`. -/
def danglingTokens : List Token :=
  lineUp [(.punct, "\x7b"), (.ident, "if"), (.punct, "("), (.ident, "a"), (.punct, ")"), (.ident, "if"), (.punct, "("),
    (.ident, "b"), (.punct, ")"), (.ident, "return"), (.number, "1"), (.punct, ";"), (.ident, "else"),
    (.ident, "return"), (.number, "2"), (.punct, ";"), (.punct, "\x7d")]

/-- The second branch belongs to the inner condition, so that the outer one can be passed by. -/
def danglingBody : Stmt .one :=
  .block (.next (.branch (.branches (.simple .exit) (.simple .exit))) .done)

theorem missingReturn_iff_completes_dangling :
    SpelledOnly danglingBody danglingTokens [] ∧ danglingBody.jumps = false ∧ danglingBody.Runs .completed ∧
      ((readBody bareEnv).run (readingOf danglingTokens)).1 = false ∧
      missingReturns ((readCallableBody bareEnv .func .integer ⟨.ident, "f", ⟨0, 1⟩⟩).run
        (readingOf danglingTokens)).2.findings.toList = [⟨.missingReturn "f" .integer, ⟨0, 1⟩⟩] := by
  let name : Token := ⟨.ident, "f", ⟨0, 1⟩⟩
  have spelled : Spelled danglingBody danglingTokens [] :=
    .block rfl (.next (.branch rfl (.mk rfl (.part rfl (.refl _)) rfl)
      (.branches rfl (.mk rfl (.part rfl (.refl _)) rfl) (.simple rfl (.part rfl (.part rfl (.refl _))) rfl) rfl
        (.simple rfl (.part rfl (.part rfl (.refl _))) rfl)) rfl) (.done rfl))
  have fineEarly : ∀ finding ∈ ((readBody bareEnv).run (readingOf danglingTokens)).2.findings.toList,
      finding.problem.code ≠ .malformed := by decide +kernel
  have fine : ∀ finding ∈
      ((readCallableBody bareEnv .func .integer name).run (readingOf danglingTokens)).2.findings.toList,
      finding.problem.code ≠ .malformed := by decide +kernel
  obtain ⟨⟨early, sameEarly, holdsEarly⟩, added, same, holds⟩ :=
    @missingReturn_iff_completes bareEnv .func .integer name (readingOf danglingTokens) _ _ rfl rfl
  rw [show (readingOf danglingTokens).findings.toList ++ early = early from rfl] at sameEarly
  rw [show (readingOf danglingTokens).findings.toList ++ added = added from rfl] at same
  obtain ⟨_, only, told⟩ := holdsEarly (sameEarly ▸ fineEarly)
  obtain ⟨_, onlyToo, reports⟩ := holds (same ▸ fine)
  obtain ⟨rfl, left⟩ := only.2 danglingBody [] spelled
  obtain ⟨rfl, -⟩ := onlyToo.2 danglingBody [] spelled
  have completes : danglingBody.Runs .completed := .block (.next .skipped .done)
  have falls := Bool.eq_false_iff.mpr fun returns => (told rfl).mp returns completes
  rw [← left] at only
  exact ⟨only, rfl, completes, falls, same ▸ (reports rfl).1 ⟨rfl, by decide, completes⟩⟩

end ScriptLint.Analysis
