import ScriptLint.Proofs.ExprSteps

/-!
# Where statements go on

The statements of a body as a tree, what executions of it can do if every condition may turn out either way, and how
the tree is spelled in tokens. Expressions are only told apart from what stands around them: they hold neither braces
nor semicolons, and their parentheses come in pairs. Tokens spell at most one tree, as an `else` belongs to the nearest
`if`.
-/

namespace ScriptLint.Analysis

open List

/-- A statement that has no statements inside. -/
inductive Simple where
  | empty
  | expression
  | declaration
  | label
  | stateChange
  | jump
  | exit
  deriving Repr, DecidableEq

/-- A loop that may leave out its body. -/
inductive LoopKind where
  | conditional
  | counted
  deriving Repr, DecidableEq

/-- One statement, or those of a block. -/
inductive Extent where
  | one
  | many

/-- Statements without their expressions. -/
inductive Stmt : Extent → Type where
  | done : Stmt .many
  | next (first : Stmt .one) (later : Stmt .many) : Stmt .many
  | simple (kind : Simple) : Stmt .one
  | block (body : Stmt .many) : Stmt .one
  | branch (body : Stmt .one) : Stmt .one
  | branches (body other : Stmt .one) : Stmt .one
  | loop (kind : LoopKind) (body : Stmt .one) : Stmt .one
  | doLoop (body : Stmt .one) : Stmt .one

/-! ## Executions -/

/-- How an execution ends. -/
inductive Outcome where
  | completed
  | returned

namespace Stmt

/-- What executions can do. Every condition may turn out either way, and a jump has no execution. -/
inductive Runs : {extent : Extent} → Stmt extent → Outcome → Prop where
  | done : Runs done .completed
  | next {first : Stmt .one} {later : Stmt .many} {outcome : Outcome} (completes : Runs first .completed)
      (goesOn : Runs later outcome) : Runs (next first later) outcome
  | leave {first : Stmt .one} {later : Stmt .many} (returns : Runs first .returned) : Runs (next first later) .returned
  | simple {kind : Simple} (stays : kind ≠ .exit) (falls : kind ≠ .jump) : Runs (simple kind) .completed
  | exit : Runs (simple .exit) .returned
  | block {body : Stmt .many} {outcome : Outcome} (runs : Runs body outcome) : Runs (block body) outcome
  | taken {body : Stmt .one} {outcome : Outcome} (runs : Runs body outcome) : Runs (branch body) outcome
  | skipped {body : Stmt .one} : Runs (branch body) .completed
  | either {body other : Stmt .one} {outcome : Outcome} (runs : Runs body outcome) : Runs (branches body other) outcome
  | otherwise {body other : Stmt .one} {outcome : Outcome} (runs : Runs other outcome) :
      Runs (branches body other) outcome
  | never {kind : LoopKind} {body : Stmt .one} : Runs (loop kind body) .completed
  | again {kind : LoopKind} {body : Stmt .one} {outcome : Outcome} (completes : Runs body .completed)
      (goesOn : Runs (loop kind body) outcome) : Runs (loop kind body) outcome
  | break_ {kind : LoopKind} {body : Stmt .one} (returns : Runs body .returned) : Runs (loop kind body) .returned
  | once {body : Stmt .one} {outcome : Outcome} (runs : Runs body outcome) : Runs (doLoop body) outcome
  | repeated {body : Stmt .one} {outcome : Outcome} (completes : Runs body .completed)
      (goesOn : Runs (doLoop body) outcome) : Runs (doLoop body) outcome

/-- Whether a jump stands inside. -/
def jumps : {extent : Extent} → Stmt extent → Bool
  | _, done => false
  | _, next first later => first.jumps || later.jumps
  | _, simple kind => kind == .jump
  | _, block body => body.jumps
  | _, branch body => body.jumps
  | _, branches body other => body.jumps || other.jumps
  | _, loop _ body => body.jumps
  | _, doLoop body => body.jumps

/-- Whether every path returns, by the form of the statements. -/
def returns : {extent : Extent} → Stmt extent → Bool
  | _, done => false
  | _, next first later => first.returns || later.returns
  | _, simple kind => kind == .exit
  | _, block body => body.returns
  | _, branch _ => false
  | _, branches body other => body.returns && other.returns
  | _, loop _ _ => false
  | _, doLoop body => body.returns

theorem Runs.returns_eq_false {extent : Extent} {stmt : Stmt extent} {outcome : Outcome} (runs : Runs stmt outcome)
    (ends : outcome = .completed) : stmt.returns = false := by
  induction runs with
  | done | taken | skipped | never | again | break_ => rfl
  | leave | exit => cases ends
  | next _ _ ihFirst ihLater => exact Bool.or_eq_false_iff.mpr ⟨ihFirst rfl, ihLater ends⟩
  | simple stays => exact beq_eq_false_iff_ne.mpr stays
  | block _ ih | once _ ih | repeated _ _ _ ih => exact ih ends
  | either _ ih => exact Bool.and_eq_false_iff.mpr (.inl (ih ends))
  | otherwise _ ih => exact Bool.and_eq_false_iff.mpr (.inr (ih ends))

theorem completed_of_not_returns {extent : Extent} {stmt : Stmt extent} (free : stmt.jumps = false)
    (falls : stmt.returns = false) : Runs stmt .completed := by
  induction stmt with
  | done => exact .done
  | next _ _ ihFirst ihLater =>
    obtain ⟨freeFirst, freeLater⟩ := Bool.or_eq_false_iff.mp free
    obtain ⟨fallsFirst, fallsLater⟩ := Bool.or_eq_false_iff.mp falls
    exact .next (ihFirst freeFirst fallsFirst) (ihLater freeLater fallsLater)
  | simple => exact .simple (beq_eq_false_iff_ne.mp falls) (beq_eq_false_iff_ne.mp free)
  | block _ ih => exact .block (ih free falls)
  | branch => exact .skipped
  | branches _ _ ihBody ihOther =>
    obtain ⟨freeBody, freeOther⟩ := Bool.or_eq_false_iff.mp free
    rcases Bool.and_eq_false_iff.mp falls with falls | falls
    · exact .either (ihBody freeBody falls)
    · exact .otherwise (ihOther freeOther falls)
  | loop => exact .never
  | doLoop _ ih => exact .once (ih free falls)

/-- Without jumps, the form tells exactly whether an execution can complete. -/
theorem returns_eq_false_iff {extent : Extent} {stmt : Stmt extent} (free : stmt.jumps = false) :
    stmt.returns = false ↔ Runs stmt .completed :=
  ⟨completed_of_not_returns free, fun runs => runs.returns_eq_false rfl⟩

end Stmt

/-! ## Spelling -/

/-- A sign behind an expression. -/
def isStop (token : Token) : Bool :=
  token.isPunct ";" || token.isPunct ")"

/-- Tokens without braces and semicolons, and with parentheses in pairs, stand in front of some others. -/
inductive Skips : List Token → List Token → Prop where
  | refl (tokens : List Token) : Skips tokens tokens
  | part {token : Token} {tokens rest : List Token} (plain : isPart token = true) (more : Skips tokens rest) :
      Skips (token :: tokens) rest
  | group {opening closing : Token} {tokens behind rest : List Token} (opens : opening.isPunct "(" = true)
      (inner : Skips tokens (closing :: behind)) (closes : closing.isPunct ")" = true) (more : Skips behind rest) :
      Skips (opening :: tokens) rest

/-- A condition in its parentheses. -/
inductive Enclosed : List Token → List Token → Prop where
  | mk {opening closing : Token} {tokens rest : List Token} (opens : opening.isPunct "(" = true)
      (inner : Skips tokens (closing :: rest)) (closes : closing.isPunct ")" = true) :
      Enclosed (opening :: tokens) rest

/-- The three parts of a loop's header in their parentheses. -/
inductive Header : List Token → List Token → Prop where
  | mk {opening first second closing : Token} {tokens middle behind rest : List Token}
      (opens : opening.isPunct "(" = true) (start : Skips tokens (first :: middle)) (ends : first.isPunct ";" = true)
      (condition : Skips middle (second :: behind)) (endsToo : second.isPunct ";" = true)
      (step : Skips behind (closing :: rest)) (closes : closing.isPunct ")" = true) :
      Header (opening :: tokens) rest

/-- What the beginning of a statement tells. -/
inductive Head where
  | closing
  | simple (kind : Simple)
  | block
  | branch
  | loop (kind : LoopKind)
  | doLoop

/-- What a word at the front of some tokens tells. -/
def wordHead (tokens : List Token) (word : String) : Option Head :=
  match word with
  | "if" => some .branch
  | "else" => none
  | "while" => some (.loop .conditional)
  | "for" => some (.loop .counted)
  | "do" => some .doLoop
  | "return" => some (.simple .exit)
  | "state" => some (.simple .stateChange)
  | "jump" => some (.simple .jump)
  | _ => some (.simple (if (declarationAt? tokens).isSome then .declaration else .expression))

/-- What the first tokens of a statement tell. -/
def headOf : List Token → Option Head
  | [] => none
  | token :: rest =>
    if token.isIdent then wordHead (token :: rest) token.text
    else if token.isPunct "\x7b" then some .block
    else if token.isPunct "\x7d" then some .closing
    else if token.isPunct ";" then some (.simple .empty)
    else if token.isPunct "@" then some (.simple .label)
    else some (.simple .expression)

/-- Statements stand in front of some tokens. Those of a block stand there with its closing brace. -/
inductive Spelled : {extent : Extent} → Stmt extent → List Token → List Token → Prop where
  | done {closing : Token} {rest : List Token} (head : headOf (closing :: rest) = some .closing) :
      Spelled .done (closing :: rest) rest
  | next {first : Stmt .one} {later : Stmt .many} {tokens middle rest : List Token} (one : Spelled first tokens middle)
      (many : Spelled later middle rest) : Spelled (.next first later) tokens rest
  /-- A statement without statements inside reaches to the next semicolon. -/
  | simple {kind : Simple} {semicolon : Token} {tokens rest : List Token}
      (head : headOf tokens = some (.simple kind)) (value : Skips tokens (semicolon :: rest))
      (ends : semicolon.isPunct ";" = true) : Spelled (.simple kind) tokens rest
  | block {body : Stmt .many} {opening : Token} {tokens rest : List Token}
      (head : headOf (opening :: tokens) = some .block) (many : Spelled body tokens rest) :
      Spelled (.block body) (opening :: tokens) rest
  | branch {body : Stmt .one} {keyword : Token} {tokens middle rest : List Token}
      (head : headOf (keyword :: tokens) = some .branch) (condition : Enclosed tokens middle)
      (one : Spelled body middle rest) (alone : rest.head?.any (·.isWord "else") = false) :
      Spelled (.branch body) (keyword :: tokens) rest
  | branches {body other : Stmt .one} {keyword otherwise : Token} {tokens middle behind rest : List Token}
      (head : headOf (keyword :: tokens) = some .branch) (condition : Enclosed tokens middle)
      (one : Spelled body middle (otherwise :: behind)) (word : otherwise.isWord "else" = true)
      (another : Spelled other behind rest) : Spelled (.branches body other) (keyword :: tokens) rest
  | conditional {body : Stmt .one} {keyword : Token} {tokens middle rest : List Token}
      (head : headOf (keyword :: tokens) = some (.loop .conditional)) (condition : Enclosed tokens middle)
      (one : Spelled body middle rest) : Spelled (.loop .conditional body) (keyword :: tokens) rest
  | counted {body : Stmt .one} {keyword : Token} {tokens middle rest : List Token}
      (head : headOf (keyword :: tokens) = some (.loop .counted)) (header : Header tokens middle)
      (one : Spelled body middle rest) : Spelled (.loop .counted body) (keyword :: tokens) rest
  | doLoop {body : Stmt .one} {keyword again semicolon : Token} {tokens middle rest : List Token}
      (head : headOf (keyword :: tokens) = some .doLoop) (one : Spelled body tokens (again :: middle))
      (word : again.isWord "while" = true) (condition : Enclosed middle (semicolon :: rest))
      (ends : semicolon.isPunct ";" = true) : Spelled (.doLoop body) (keyword :: tokens) rest

/-! ### Skipping -/

namespace Skips

variable {tokens middle rest last : List Token}

theorem trans (first : Skips tokens middle) (second : Skips middle rest) : Skips tokens rest := by
  induction first with
  | refl => exact second
  | part plain _ ih => exact .part plain (ih second)
  | group opens inner closes _ _ ih => exact .group opens inner closes (ih second)

theorem length_le (skips : Skips tokens rest) : rest.length ≤ tokens.length := by
  induction skips with
  | refl => exact Nat.le_refl _
  | part _ _ ih => exact Nat.le_succ_of_le ih
  | group _ _ _ _ ihInner =>
    rw [length_cons] at ihInner ⊢
    omega

theorem stops_of_part {token : Token} (plain : isPart token) : isStop token = false := by
  simp only [isPart, any_cons, any_nil, Bool.or_false, Bool.not_eq_true', Bool.or_eq_false_iff] at plain
  rw [isStop, plain.1, plain.2.2.1]
  rfl

theorem stops_of_opening {token : Token} (opens : token.isPunct "(") : isStop token = false := by
  rw [isStop, isPunct_eq opens, isPunct_eq opens]
  decide

/-- There is one way to go on to a sign behind an expression. -/
theorem unique (first : Skips tokens rest) (second : Skips tokens last) (stops : rest.head?.any isStop)
    (stopsToo : last.head?.any isStop) : last = rest := by
  induction first generalizing last with
  | refl =>
    cases second with
    | refl => rfl
    | part plain => exact absurd stops (Bool.eq_false_iff.mp (stops_of_part plain))
    | group opens => exact absurd stops (Bool.eq_false_iff.mp (stops_of_opening opens))
  | @part _ _ _ plain _ ih =>
    cases second with
    | refl => exact absurd stopsToo (Bool.eq_false_iff.mp (stops_of_part plain))
    | part _ moreToo => exact ih moreToo stops stopsToo
    | group opens =>
      simp [isPart, isPunct_eq opens] at plain
  | @group _ _ _ _ rest opens _ closes _ ihInner ihMore =>
    have paren {token : Token} (closes : token.isPunct ")") (rest : List Token) :
        (token :: rest).head?.any isStop := by
      simp [isStop, closes]
    cases second with
    | refl => exact absurd stopsToo (Bool.eq_false_iff.mp (stops_of_opening opens))
    | part plain =>
      simp [isPart, isPunct_eq opens] at plain
    | group _ innerToo closesToo moreToo =>
      obtain ⟨-, rfl⟩ := List.cons.inj (ihInner innerToo (paren closes _) (paren closesToo _))
      exact ihMore moreToo stops stopsToo

end Skips

section Parens

variable {tokens rest last : List Token}

theorem Enclosed.length_lt (enclosed : Enclosed tokens rest) : rest.length < tokens.length := by
  cases enclosed with
  | mk _ inner =>
    have le := inner.length_le
    rw [length_cons] at le ⊢
    omega

theorem Header.length_lt (header : Header tokens rest) : rest.length < tokens.length := by
  cases header with
  | mk _ start _ condition _ step =>
    have leStart := start.length_le
    have leCondition := condition.length_le
    have leStep := step.length_le
    rw [length_cons] at leStart leCondition leStep ⊢
    omega

theorem Enclosed.unique (first : Enclosed tokens rest) (second : Enclosed tokens last) : last = rest := by
  cases first with
  | mk _ inner closes =>
    cases second with
    | mk _ innerToo closesToo =>
      exact (List.cons.inj (inner.unique innerToo (by simp [isStop, closes]) (by simp [isStop, closesToo]))).2

theorem Header.unique (first : Header tokens rest) (second : Header tokens last) : last = rest := by
  cases first with
  | mk _ start ends condition endsToo step closes =>
    cases second with
    | mk _ start' ends' condition' endsToo' step' closes' =>
      obtain ⟨-, rfl⟩ := List.cons.inj (start.unique start' (by simp [isStop, ends]) (by simp [isStop, ends']))
      obtain ⟨-, rfl⟩ :=
        List.cons.inj (condition.unique condition' (by simp [isStop, endsToo]) (by simp [isStop, endsToo']))
      exact (List.cons.inj (step.unique step' (by simp [isStop, closes]) (by simp [isStop, closes']))).2

end Parens

/-! ### Statements -/

/-- What a statement begins with. -/
def Stmt.head : Stmt .one → Head
  | simple kind => .simple kind
  | block _ => .block
  | branch _ => .branch
  | branches _ _ => .branch
  | loop kind _ => .loop kind
  | doLoop _ => .doLoop

theorem Stmt.head_ne_closing (stmt : Stmt .one) : stmt.head ≠ .closing := by
  cases stmt <;> exact Head.noConfusion

theorem headOf_of_isPunct {token : Token} {sign : String} (found : token.isPunct sign) (rest : List Token) :
    headOf (token :: rest) =
      if sign == "\x7b" then some .block
      else if sign == "\x7d" then some .closing
      else if sign == ";" then some (.simple .empty)
      else if sign == "@" then some (.simple .label)
      else some (.simple .expression) := by
  rw [headOf, if_neg (Bool.eq_false_iff.mp (isIdent_of_isPunct found)), isPunct_eq found, isPunct_eq found,
    isPunct_eq found, isPunct_eq found]

namespace Spelled

variable {extent : Extent} {stmt : Stmt extent} {tokens rest : List Token}

theorem headOf_eq {stmt : Stmt .one} (spelled : Spelled stmt tokens rest) : headOf tokens = some stmt.head := by
  cases spelled <;> assumption

theorem length_lt (spelled : Spelled stmt tokens rest) : rest.length < tokens.length := by
  induction spelled with
  | done => exact Nat.lt_succ_self _
  | next _ _ ihOne ihMany => exact Nat.lt_trans ihMany ihOne
  | simple _ value => exact value.length_le
  | block _ _ ih => exact Nat.lt_succ_of_lt ih
  | branch _ condition _ _ ih | conditional _ condition _ ih =>
    have shorter := condition.length_lt
    rw [length_cons]
    omega
  | branches _ condition _ _ _ ihOne =>
    have shorter := condition.length_lt
    rw [length_cons] at ihOne ⊢
    omega
  | counted _ header =>
    have shorter := header.length_lt
    rw [length_cons]
    omega
  | doLoop _ _ _ condition _ ih =>
    have shorter := condition.length_lt
    rw [length_cons] at ih shorter ⊢
    omega

/-- Tokens spell one tree. -/
theorem unique {other : Stmt extent} {last : List Token} (first : Spelled stmt tokens rest)
    (second : Spelled other tokens last) : other = stmt ∧ last = rest := by
  induction first generalizing last with
  | done head =>
    cases second with
    | done => exact ⟨rfl, rfl⟩
    | next one => exact absurd (Option.mem_unique one.headOf_eq head) (Stmt.head_ne_closing _)
  | next one _ ihOne ihMany =>
    cases second with
    | done head => exact absurd (Option.mem_unique one.headOf_eq head) (Stmt.head_ne_closing _)
    | next oneToo manyToo =>
      obtain ⟨rfl, rfl⟩ := ihOne oneToo
      obtain ⟨rfl, rfl⟩ := ihMany manyToo
      exact ⟨rfl, rfl⟩
  | simple head value ends =>
    have same := Option.mem_unique second.headOf_eq head
    cases second with
    | simple _ valueToo endsToo =>
      obtain ⟨-, rfl⟩ := List.cons.inj (value.unique valueToo (by simp [isStop, ends]) (by simp [isStop, endsToo]))
      cases same
      exact ⟨rfl, rfl⟩
    | _ => cases same
  | block head _ ih =>
    have same := Option.mem_unique second.headOf_eq head
    cases second with
    | block _ manyToo =>
      obtain ⟨rfl, rfl⟩ := ih manyToo
      exact ⟨rfl, rfl⟩
    | _ => cases same
  | branch head condition _ alone ih =>
    have same := Option.mem_unique second.headOf_eq head
    cases second with
    | branch _ conditionToo oneToo =>
      obtain rfl := condition.unique conditionToo
      obtain ⟨rfl, rfl⟩ := ih oneToo
      exact ⟨rfl, rfl⟩
    | branches _ conditionToo oneToo word =>
      obtain rfl := condition.unique conditionToo
      obtain ⟨-, rfl⟩ := ih oneToo
      exact absurd word (Bool.eq_false_iff.mp alone)
    | _ => cases same
  | branches head condition _ word _ ihOne ihAnother =>
    have same := Option.mem_unique second.headOf_eq head
    cases second with
    | branch _ conditionToo oneToo alone =>
      obtain rfl := condition.unique conditionToo
      obtain ⟨-, rfl⟩ := ihOne oneToo
      exact absurd word (Bool.eq_false_iff.mp alone)
    | branches _ conditionToo oneToo _ anotherToo =>
      obtain rfl := condition.unique conditionToo
      obtain ⟨rfl, behind⟩ := ihOne oneToo
      obtain ⟨-, rfl⟩ := List.cons.inj behind
      obtain ⟨rfl, rfl⟩ := ihAnother anotherToo
      exact ⟨rfl, rfl⟩
    | _ => cases same
  | conditional head condition _ ih =>
    have same := Option.mem_unique second.headOf_eq head
    cases second with
    | conditional _ conditionToo oneToo =>
      obtain rfl := condition.unique conditionToo
      obtain ⟨rfl, rfl⟩ := ih oneToo
      exact ⟨rfl, rfl⟩
    | _ => cases same
  | counted head header _ ih =>
    have same := Option.mem_unique second.headOf_eq head
    cases second with
    | counted _ headerToo oneToo =>
      obtain rfl := header.unique headerToo
      obtain ⟨rfl, rfl⟩ := ih oneToo
      exact ⟨rfl, rfl⟩
    | _ => cases same
  | doLoop head _ _ condition _ ih =>
    have same := Option.mem_unique second.headOf_eq head
    cases second with
    | doLoop _ oneToo _ conditionToo =>
      obtain ⟨rfl, behind⟩ := ih oneToo
      obtain ⟨-, rfl⟩ := List.cons.inj behind
      obtain ⟨-, rfl⟩ := List.cons.inj (condition.unique conditionToo)
      exact ⟨rfl, rfl⟩
    | _ => cases same

end Spelled

end ScriptLint.Analysis
