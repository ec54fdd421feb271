import ScriptLint.Proofs.ExprPlacing
import ScriptLint.Proofs.ScanRuns

/-!
# Reading follows the tree

An expression that is written with enough parentheses is read as its tree says. The argument is one induction over the
tree. An operator is met only after its left operand is read as a whole, so the statement for the induction is about
the moment when an expression stands complete and the scan looks for operators behind it.
-/

namespace ScriptLint.Analysis

open List

/-! ## Strengths -/

namespace BetweenOp

variable (op : BetweenOp)

theorem strength?_symbol : strength? op.symbol = some (op.left, op.right) := by
  rcases op with op | op <;> cases op <;> rfl

theorem isStepSign_symbol : isStepSign op.symbol = false := by
  rcases op with op | op <;> cases op <;> rfl

/-- Operators group to the left, and assignments to the right. -/
theorem right_eq : op.right = op.left + 1 ∨ op.left = 2 ∧ op.right = 1 := by
  cases op with
  | binary op => exact .inl (by cases op <;> rfl)
  | assign op => exact .inr (by cases op <;> exact ⟨rfl, rfl⟩)

theorem left_bounds : 2 ≤ op.left ∧ op.left < frontStrength := by
  rcases op with op | op <;> cases op <;> decide

theorem right_ne_two : op.right ≠ 2 := by
  rcases op with op | op <;> cases op <;> decide

theorem right_lt : op.right < frontStrength := by
  rcases op with op | op <;> cases op <;> decide

/-- The rule is chosen by the strengths. -/
theorem rule_eq (left : Typed) (token : Token) (right : Typed) :
    (if (op.left, op.right) == assignStrength then assignRule left token right else binaryRule left token right) =
      op.rule left token right := by
  rcases op with op | op <;> cases op <;> rfl

end BetweenOp

namespace Expr

variable {ι : Type} {expr : Expr ι}

/-- What can be read at some strength is left whole by weaker operators. -/
theorem le_rightStrength {least : Nat} (other : least ≠ 2) (weak : least ≤ frontStrength)
    (le : least ≤ expr.leftStrength) : least ≤ expr.rightStrength := by
  have atom : frontStrength ≤ atomStrength := by decide
  cases expr with
  | between _ op =>
    change least ≤ op.left at le
    change least ≤ op.right
    rcases op.right_eq with next | ⟨two, one⟩
    · omega
    · omega
  | front | cast => exact weak
  | _ => exact Nat.le_trans weak atom

/-- What is left whole by an operator behind it can be read where the operator can. -/
theorem left_le_leftStrength {op : BetweenOp} (lt : op.left < expr.rightStrength) : op.left ≤ expr.leftStrength := by
  have bounds := op.left_bounds
  have step : frontStrength ≤ behindStrength := by decide
  have atom : frontStrength ≤ atomStrength := by decide
  cases expr with
  | between _ other =>
    change op.left < other.right at lt
    change op.left ≤ other.left
    rcases other.right_eq with next | ⟨two, one⟩
    · omega
    · omega
  | behind => exact Nat.le_trans (Nat.le_of_lt bounds.2) step
  | _ => exact Nat.le_trans (Nat.le_of_lt bounds.2) atom

/-- What is left whole by a step behind it can be read where the step can. -/
theorem behind_le_leftStrength (lt : behindStrength < expr.rightStrength) : behindStrength ≤ expr.leftStrength := by
  have weak : ¬behindStrength < frontStrength := by decide
  cases expr with
  | between _ op => exact absurd (Nat.lt_trans lt op.right_lt) weak
  | front | cast => exact absurd lt weak
  | behind => exact Nat.le_refl _
  | _ => exact Nat.le_succ _

end Expr

/-! ## Where expressions end -/

/-- How strongly an operator behind an expression binds it. -/
def strengthBehind (sign : String) : Nat :=
  if isStepSign sign then behindStrength else ((strength? sign).map Prod.fst).getD 0

/-- What follows an expression that is read at some strength: an operator that binds less, or a sign that neither
opens the arguments of a call nor leads to a member. -/
def Ends (least : Nat) : List Token → Prop
  | [] => False
  | token :: _ =>
    token.kind = .op ∧ strengthBehind token.text < least ∨
      token.kind = .punct ∧ token.text ≠ "(" ∧ token.text ≠ "."

namespace Ends

variable {least more : Nat} {rest : List Token}

theorem mono (ends : Ends least rest) (le : least ≤ more) : Ends more rest := by
  cases rest with
  | nil => exact ends
  | cons =>
    rcases ends with ⟨kind, lt⟩ | other
    · exact .inl ⟨kind, Nat.lt_of_lt_of_le lt le⟩
    · exact .inr other

theorem ofOp {op : BetweenOp} {place : Span} (lt : op.left < least) : Ends least (⟨.op, op.symbol, place⟩ :: rest) := by
  refine .inl ⟨rfl, ?_⟩
  simpa [strengthBehind, op.isStepSign_symbol, op.strength?_symbol] using lt

theorem ofStep {step : Step} {place : Span} (lt : behindStrength < least) :
    Ends least (⟨.op, step.op.symbol, place⟩ :: rest) := by
  refine .inl ⟨rfl, ?_⟩
  cases step <;> exact lt

theorem ofPunct {sign : String} {place : Span} (call : sign ≠ "(") (member : sign ≠ ".") :
    Ends least (⟨.punct, sign, place⟩ :: rest) := .inr ⟨rfl, call, member⟩

theorem comma {place : Span} : Ends least (⟨.punct, ",", place⟩ :: rest) := .ofPunct (by decide) (by decide)

/-- Neither arguments nor a member follow. -/
theorem isPunct_eq_false {token : Token} (ends : Ends least (token :: rest)) {sign : String}
    (matters : sign = "(" ∨ sign = ".") : token.isPunct sign = false := by
  rcases ends with ⟨kind, _⟩ | ⟨_, call, member⟩
  · rw [Token.isPunct, kind]
    rfl
  · rw [Token.isPunct, Bool.and_eq_false_iff]
    refine .inr (beq_eq_false_iff_ne.mpr ?_)
    rcases matters with rfl | rfl
    · exact call
    · exact member

end Ends

/-- Nothing is read behind an expression that ends. -/
theorem run_climb_of_ends {least : Nat} {rest : List Token} (ends : Ends least rest) (sub : Reader) (limit : Nat)
    (left : Typed) (state : State) (read : List Token) (trace : Trace) :
    (climb sub least limit left).run (state.reach read rest trace) = (left, state.reach read rest trace) := by
  cases limit with
  | zero => rfl
  | succ =>
    cases rest with
    | nil => exact False.elim ends
    | cons token rest =>
      rw [climb, run_bind (run_peek state read (token :: rest) trace)]
      dsimp only [head?_cons]
      rcases ends with ⟨kind, lt⟩ | ⟨kind, _, _⟩
      · rw [if_neg (by simp [kind])]
        rw [strengthBehind] at lt
        split at lt
        · rename_i step
          rw [if_pos step, if_pos lt]
          rfl
        · rename_i step
          rw [if_neg step]
          cases found : strength? token.text with
          | none => rfl
          | some strengths =>
            rw [found] at lt
            dsimp only
            rw [if_pos (show strengths.1 < least from lt)]
            rfl
      · rw [if_pos (by simp [kind])]
        rfl

/-- No member is read behind an expression that ends. -/
theorem run_readMembers_of_ends {least : Nat} {rest : List Token} (ends : Ends least rest) (limit : Nat) (base : Typed)
    (state : State) (read : List Token) (trace : Trace) :
    (readMembers limit base).run (state.reach read rest trace) = (base, state.reach read rest trace) := by
  cases limit with
  | zero => rfl
  | succ =>
    cases rest with
    | nil => exact False.elim ends
    | cons _ rest =>
      have other := ends.isPunct_eq_false (.inr rfl)
      rw [readMembers, run_bind (run_eatPunct_of_other state read rest trace other)]
      rfl

/-! ## Reading -/

/-- Once an expression is read, the scan looks for operators behind it, with what the tree comes to. -/
def Expr.Reads (env : Env) (state : State) (expr : Expr Span) : Prop :=
  ∀ depth least read after trace, least ≤ expr.leftStrength →
    Ends expr.rightStrength after → (expr.tokens ++ after).length ≤ depth →
    ∃ limit, after.length < limit ∧
      (readExprWithin env (depth + 1) least).run (state.reach read (expr.tokens ++ after) trace) =
        (climb (readExprWithin env depth) least limit (expr.judge env state).typed).run
          (state.reach (read ++ expr.tokens) after (trace ++ (expr.judge env state).trace))

variable {env : Env} {state : State} {expr : Expr Span}

/-- An expression is read as a whole where it ends. -/
theorem Expr.Reads.whole (reads : expr.Reads env state) {depth least : Nat} (read : List Token)
    {after : List Token} (trace : Trace) (le : least ≤ expr.leftStrength) (ends : Ends least after)
    (endsExpr : Ends expr.rightStrength after) (enough : (expr.tokens ++ after).length < depth) :
    (readExprWithin env depth least).run (state.reach read (expr.tokens ++ after) trace) =
      ((expr.judge env state).typed,
        state.reach (read ++ expr.tokens) after (trace ++ (expr.judge env state).trace)) := by
  cases depth with
  | zero => exact absurd enough (Nat.not_lt_zero _)
  | succ depth =>
    obtain ⟨limit, _, ran⟩ := reads depth least read after trace le endsExpr (Nat.le_of_lt_succ enough)
    rw [ran]
    exact run_climb_of_ends ends _ _ _ _ _ _

/-- A token that an expression can start with. -/
structure Starts (token : Token) : Prop where
  parenthesis : token.isPunct ")" = false
  bracket : token.isPunct "]" = false
  noType : token.isIdent = true → SemType.ofKeyword? token.text = none

theorem FreeName.ofKeyword?_eq_none (name : FreeName) : SemType.ofKeyword? name.text = none := by
  have free := name.free
  unfold SemType.ofKeyword?
  split
  all_goals simp_all [isReserved, reservedWords]

theorem Expr.tokens_eq_cons (expr : Expr Span) : ∃ token others, expr.tokens = token :: others ∧ Starts token := by
  match expr with
  | .number text place => exact ⟨_, _, rfl, rfl, rfl, nofun⟩
  | .string text place => exact ⟨_, _, rfl, rfl, rfl, nofun⟩
  | .name word place => exact ⟨_, _, rfl, rfl, rfl, fun _ => word.ofKeyword?_eq_none⟩
  | .call callee place opening args => exact ⟨_, _, rfl, rfl, rfl, fun _ => callee.callable⟩
  | .parens opening inner closing => exact ⟨_, _, rfl, rfl, rfl, nofun⟩
  | .cast opening word place closing operand => exact ⟨_, _, rfl, rfl, rfl, nofun⟩
  | .front op place operand => exact ⟨_, _, rfl, rfl, rfl, nofun⟩
  | .vector opening parts => exact ⟨_, _, rfl, rfl, rfl, nofun⟩
  | .list opening items => exact ⟨_, _, rfl, rfl, rfl, nofun⟩
  | .member base dot word place =>
    obtain ⟨token, others, tokens, starts⟩ := base.tokens_eq_cons
    exact ⟨token, _, congrArg (· ++ _) tokens, starts⟩
  | .behind operand step place =>
    obtain ⟨token, others, tokens, starts⟩ := operand.tokens_eq_cons
    exact ⟨token, _, congrArg (· ++ _) tokens, starts⟩
  | .between left op place right =>
    obtain ⟨token, others, tokens, starts⟩ := left.tokens_eq_cons
    exact ⟨token, _, congrArg (· ++ _) tokens, starts⟩

theorem Items.write_eq_cons (items : Items Span) (kind : TokenKind) (sign : String) :
    ∃ token others, items.write Token.mk kind sign = token :: others ∧ Starts token := by
  cases items with
  | last item closing | more item comma rest =>
    obtain ⟨token, others, tokens, starts⟩ := item.tokens_eq_cons
    exact ⟨token, _, congrArg (· ++ _) tokens, starts⟩

theorem Items.lastStop_write (items : Items Span) (kind : TokenKind) (sign : String) (start : Nat) :
    lastStop start (items.write Token.mk kind sign) = items.closing.stop := by
  match items with
  | .last item closing => rw [Items.write, lastStop_append]; rfl
  | .more item comma rest => rw [Items.write, lastStop_append, lastStop_cons, rest.lastStop_write]; rfl

theorem Listing.lastStop_write (listing : Listing Span) (kind : TokenKind) (sign : String) (start : Nat) :
    lastStop start (listing.write Token.mk kind sign) = listing.closing.stop := by
  cases listing with
  | empty => rfl
  | filled items => exact items.lastStop_write kind sign start

/-! ## Items -/

/-- What a reader of items does once an item is read: it goes on behind a comma, and stops behind the closing sign. -/
structure ReadsItems (state : State) (sub : Scan Typed) (kind : TokenKind) (sign : String) (noted : Typed → Trace)
    {α : Type} (gather : List Typed → α) (reader : (limit : Nat) → Scan α) : Prop where
  last {limit : Nat} {start : State} {item : Typed} {read after : List Token} {closing : Span} {trace : Trace}
    (ran : sub.run start = (item, state.reach read (⟨kind, sign, closing⟩ :: after) trace)) :
    (reader (limit + 1)).run start =
      (gather [item], state.reach (read ++ [⟨kind, sign, closing⟩]) after (trace ++ noted item))
  more {limit : Nat} {start stop : State} {item : Typed} {items : List Typed} {read after : List Token} {comma : Span}
    {trace : Trace} (ran : sub.run start = (item, state.reach read (⟨.punct, ",", comma⟩ :: after) trace))
    (others : (reader limit).run (state.reach (read ++ [⟨.punct, ",", comma⟩]) after (trace ++ noted item)) =
      (gather items, stop)) :
    (reader (limit + 1)).run start = (gather (item :: items), stop)

/-- Items are read up to the closing sign, which no item takes for an operator. -/
theorem ReadsItems.run {depth least : Nat} {kind : TokenKind} {sign : String} {noted : Typed → Trace} {α : Type}
    {gather : List Typed → α} {reader : (limit : Nat) → Scan α}
    (reads : ReadsItems state (readExprWithin env depth least) kind sign noted gather reader)
    (ends : ∀ closing after, Ends least (⟨kind, sign, closing⟩ :: after)) (other : least ≠ 2)
    (weak : least ≤ frontStrength) (items : Items Span)
    (all : items.All fun item => least ≤ item.leftStrength ∧ item.Reads env state) {limit : Nat}
    (read after : List Token) (trace : Trace) (enough : (items.write Token.mk kind sign ++ after).length < depth)
    (limited : (items.write Token.mk kind sign ++ after).length ≤ limit) :
    (reader limit).run (state.reach read (items.write Token.mk kind sign ++ after) trace) =
      (gather ((items.judge env state).map Judged.typed),
        state.reach (read ++ items.write Token.mk kind sign) after
          (trace ++ .join ((items.judge env state).map fun item => item.trace ++ noted item.typed))) := by
  match items, limit with
  | .last item closing, 0 | .more item comma rest, 0 => simp [Items.write] at limited
  | .last item closing, limit + 1 =>
    rw [Items.write, append_assoc, singleton_append] at enough ⊢
    have endsItem := (ends closing after).mono (Expr.le_rightStrength other weak all.1)
    rw [reads.last (all.2.whole read trace all.1 (ends closing after) endsItem enough)]
    simp [Items.judge, Trace.append_assoc]
  | .more item comma rest, limit + 1 =>
    rw [Items.write, append_assoc, cons_append] at enough limited ⊢
    have others := reads.run ends other weak rest all.2 (read ++ item.tokens ++ [⟨.punct, ",", comma⟩]) after
      (trace ++ (item.judge env state).trace ++ noted (item.judge env state).typed)
      (by rw [length_append, length_cons] at enough; omega)
      (show _ ≤ limit by rw [length_append, length_cons] at limited; omega)
    rw [reads.more (all.1.2.whole read trace all.1.1 .comma .comma enough) others]
    simp [Items.judge, Trace.append_assoc]

theorem readsItems_readArgs (sub : Reader) : ReadsItems state (sub 0) .punct ")" (fun _ => {}) id (readArgs sub) where
  last ran := by
    rw [readArgs, run_bind (show remaining.run _ = (_, _) from rfl), run_bind ran,
      run_bind (run_eatPunct_of_other _ _ _ _ rfl), if_neg Bool.false_ne_true,
      run_bind (run_expectPunct _ _ _ _ _ rfl), run_bind (run_remaining ..), Bool.true_or, recoverUnless,
      if_pos rfl, run_bind (run_pure _ ()), run_pure, Trace.append_empty]
    rfl
  more ran others := by
    rw [Trace.append_empty] at others
    rw [readArgs, run_bind (show remaining.run _ = (_, _) from rfl), run_bind ran,
      run_bind (run_eatPunct _ _ _ _ rfl), if_pos rfl, run_bind others, run_pure]
    rfl

theorem readsItems_readComponents (sub : Reader) :
    ReadsItems state (sub componentStrength) .op ">" (fun _ => {}) id (readComponents sub) where
  last {_ _ _ read after closing trace} ran := by
    have closed : (atOp ">").run (state.reach read (⟨.op, ">", closing⟩ :: after) trace) =
        (true, state.reach read (⟨.op, ">", closing⟩ :: after) trace) := rfl
    rw [readComponents, run_bind ran, run_bind (run_eatPunct_of_other _ _ _ _ rfl), if_neg Bool.false_ne_true,
      run_bind closed, if_pos rfl, run_bind (run_bump ..), run_pure, Trace.append_empty]
    rfl
  more ran others := by
    rw [Trace.append_empty] at others
    rw [readComponents, run_bind ran, run_bind (run_eatPunct _ _ _ _ rfl), if_pos rfl, run_bind others]
    rfl

/-- Each element of a list is checked. -/
theorem readsItems_readElements (sub : Reader) :
    ReadsItems state (sub 0) .punct "]" (fun item => .ofFinding (elementFinding item)) (fun _ => ())
      (readElements sub) where
  last ran := by
    rw [readElements, run_bind ran, run_bind (run_note ..), run_bind (run_eatPunct_of_other _ _ _ _ rfl),
      if_neg Bool.false_ne_true, run_discard (run_expectPunct _ _ _ _ _ rfl)]
  more ran others := by
    rw [readElements, run_bind ran, run_bind (run_note ..), run_bind (run_eatPunct _ _ _ _ rfl), if_pos rfl, others]

/-! ## Operands -/

/-- An expression that is read as one operand. -/
def Expr.ReadsOperand (env : Env) (state : State) (expr : Expr Span) : Prop :=
  ∀ depth read after trace, Ends expr.rightStrength after →
    (expr.tokens ++ after).length ≤ depth →
    (readOperand env (readExprWithin env depth)).run (state.reach read (expr.tokens ++ after) trace) =
      ((expr.judge env state).typed,
        state.reach (read ++ expr.tokens) after (trace ++ (expr.judge env state).trace))

/-- An expression that members can follow. -/
def Expr.ReadsAtom (env : Env) (state : State) (expr : Expr Span) : Prop :=
  ∀ depth read after trace,
    (∀ token ∈ after.head?, token.isPunct "(" = false) → (expr.tokens ++ after).length ≤ depth →
    ∃ limit, after.length < limit ∧
      (readOperand env (readExprWithin env depth)).run (state.reach read (expr.tokens ++ after) trace) =
        (readMembers limit (expr.judge env state).typed).run
          (state.reach (read ++ expr.tokens) after (trace ++ (expr.judge env state).trace))

namespace Expr

theorem ReadsOperand.reads (operand : expr.ReadsOperand env state) : expr.Reads env state := by
  intro depth least read after trace _ ends enough
  refine ⟨after.length + 1, Nat.lt_succ_self _, ?_⟩
  rw [readExprWithin, run_bind (operand depth read after trace ends enough), run_bind (run_remaining ..)]

theorem ReadsAtom.operand (atom : expr.ReadsAtom env state) : expr.ReadsOperand env state := by
  intro depth read after trace ends enough
  have noArgs : ∀ token ∈ after.head?, token.isPunct "(" = false := by
    intro token found
    cases after with
    | nil => cases found
    | cons first =>
      obtain rfl : first = token := Option.some.inj found
      exact ends.isPunct_eq_false (.inl rfl)
  obtain ⟨limit, _, ran⟩ := atom depth read after trace noArgs enough
  rw [ran]
  exact run_readMembers_of_ends ends ..

/-- An operand whose first token is no operator. -/
theorem run_readOperand_of_other {token : Token} (noOp : token.kind ≠ .op) (sub : Reader) (read rest : List Token)
    (trace : Trace) :
    (readOperand env sub).run (state.reach read (token :: rest) trace) =
      (readPrimary env sub token rest.head? >>= fun base =>
        remaining >>= fun count => readMembers (count + 1) base).run (state.reach read (token :: rest) trace) := by
  have less : ¬token.isOp "<" := by simp [Token.isOp, noOp]
  have front : ¬(token.kind == .op && isFrontSign token.text) := by simp [noOp]
  change (if token.isOp "<" = true then _ else if (token.kind == TokenKind.op && isFrontSign token.text) = true then _
    else _ : Scan Typed).run _ = _
  rw [if_neg less, if_neg front]

/-- An expression that is read by its first token, when that is no operator. -/
theorem ReadsAtom.ofPrimary {token : Token} {others : List Token}
    (tokens : expr.tokens = token :: others) (noOp : token.kind ≠ .op)
    (primary : ∀ depth read after trace,
      (∀ token ∈ after.head?, token.isPunct "(" = false) → (token :: (others ++ after)).length ≤ depth →
      (readPrimary env (readExprWithin env depth) token (others ++ after).head?).run
          (state.reach read (token :: (others ++ after)) trace) =
        ((expr.judge env state).typed,
          state.reach (read ++ token :: others) after (trace ++ (expr.judge env state).trace))) :
    expr.ReadsAtom env state := by
  intro depth read after trace noArgs enough
  rw [tokens, cons_append] at enough ⊢
  refine ⟨after.length + 1, Nat.lt_succ_self _, ?_⟩
  rw [run_readOperand_of_other noOp, run_bind (primary depth read after trace noArgs enough),
    run_bind (run_remaining ..)]

theorem readsAtom_number (text : String) (place : Span) : (number text place).ReadsAtom env state := by
  refine .ofPrimary rfl nofun fun depth read after trace _ _ => ?_
  change (bump >>= fun _ => pure _).run _ = _
  rw [run_bind (run_bump ..), run_pure]
  simp [judge]

theorem readsAtom_string (text : String) (place : Span) : (string text place).ReadsAtom env state := by
  refine .ofPrimary rfl nofun fun depth read after trace _ _ => ?_
  change (bump >>= fun _ => pure _).run _ = _
  rw [run_bind (run_bump ..), run_pure]
  simp [judge]

theorem readsAtom_name (name : FreeName) (place : Span) : (Expr.name name place).ReadsAtom env state := by
  refine .ofPrimary rfl nofun fun depth read after trace noArgs _ => ?_
  have noCall : after.head?.any (fun token => token.isPunct "(") = false := by
    cases found : after.head? with
    | none => rfl
    | some token => exact noArgs token found
  change (if (_ && after.head?.any (fun token => token.isPunct "(")) = true then _
    else if isReserved name.text = true then _ else _ : Scan Typed).run _ = _
  rw [noCall, Bool.and_false, if_neg Bool.false_ne_true, name.free, if_neg Bool.false_ne_true, run_bind (run_bump ..),
    readName, run_bind (run_get _), run_bind (run_addRef ..), run_bind (run_note ..), run_pure, Trace.append_assoc]
  rfl

theorem run_readCallArgs (args : Listing Span)
    (reads : ∀ items, args = .filled items → items.All fun item => 0 ≤ item.leftStrength ∧ item.Reads env state)
    {depth : Nat}
    (read after : List Token) (opening : Span) (trace : Trace)
    (enough : (args.write Token.mk .punct ")" ++ after).length < depth) :
    (readCallArgs (readExprWithin env depth)).run
        (state.reach read (⟨.punct, "(", opening⟩ :: (args.write Token.mk .punct ")" ++ after)) trace) =
      ((args.judge env state).map Judged.typed,
        state.reach (read ++ ⟨.punct, "(", opening⟩ :: args.write Token.mk .punct ")") after
          (trace ++ .join ((args.judge env state).map Judged.trace))) := by
  rw [readCallArgs, run_bind (run_eatPunct _ _ _ _ rfl), if_neg (by decide)]
  cases args with
  | empty =>
    rw [Listing.write, singleton_append, run_bind (run_eatPunct _ _ _ _ rfl), if_pos rfl, run_pure]
    simp [Listing.judge]
  | filled items =>
    have ran : (readArgs (readExprWithin env depth) _).run _ = _ :=
      (readsItems_readArgs _).run (fun _ _ => .ofPunct (by decide) (by decide)) (by decide) (Nat.zero_le _) items
        (reads items rfl) (read ++ [⟨.punct, "(", opening⟩]) after trace enough (Nat.le_succ _)
    obtain ⟨token, others, tokens, starts⟩ := items.write_eq_cons .punct ")"
    rw [Listing.write, Listing.judge]
    rw [tokens, cons_append] at ran ⊢
    rw [run_bind (run_eatPunct_of_other _ _ _ _ starts.1), if_neg Bool.false_ne_true, run_bind (run_remaining ..), ran]
    simp

theorem readsAtom_call (callee : Callee) (place opening : Span) (args : Listing Span)
    (reads : ∀ items, args = .filled items → items.All fun item => 0 ≤ item.leftStrength ∧ item.Reads env state) :
    (call callee place opening args).ReadsAtom env state := by
  refine .ofPrimary rfl nofun fun depth read after trace _ enough => ?_
  rw [cons_append] at enough ⊢
  have shorter : (args.write Token.mk .punct ")" ++ after).length < depth := by
    rw [length_cons, length_cons] at enough
    omega
  have last : lastStop state.prevEnd
      (read ++ [⟨.ident, callee.text, place⟩] ++ ⟨.punct, "(", opening⟩ :: args.write Token.mk .punct ")") =
        args.closing.stop := by
    rw [lastStop_append, lastStop_cons, args.lastStop_write]
  change (if ((SemType.ofKeyword? callee.text).isNone && true) = true then _ else _ : Scan Typed).run _ = _
  rw [callee.callable, if_pos (by rfl), run_bind (run_bump ..), readCall,
    run_bind (run_readCallArgs args reads _ after opening trace shorter), run_bind (run_spanFrom _ _ _ _ _ last),
    run_bind (run_get _), run_bind (run_note ..), run_bind (run_addRef ..), run_bind (run_recordCall ..), run_pure]
  rw [append_assoc, singleton_append, Trace.append_assoc, Trace.append_assoc, Trace.append_assoc,
    Trace.ofFinding_append]
  rfl

/-- An expression in parentheses is not taken for a conversion. -/
theorem castAt?_parens (inner : Expr Span) (opening closing : Token) (after : List Token) :
    castAt? (opening :: (inner.tokens ++ closing :: after)) = none := by
  obtain ⟨token, others, tokens, starts⟩ := inner.tokens_eq_cons
  rw [tokens, cons_append]
  cases others ++ closing :: after with
  | nil => rfl
  | cons =>
    rw [castAt?]
    split
    · next found => exact starts.noType (Bool.and_eq_true _ _ ▸ found).1
    · rfl

theorem readsAtom_parens (opening : Span) {inner : Expr Span} (closing : Span) (reads : inner.Reads env state) :
    (parens opening inner closing).ReadsAtom env state := by
  refine .ofPrimary rfl nofun fun depth read after trace _ enough => ?_
  rw [append_assoc, singleton_append] at enough ⊢
  have ends (least : Nat) : Ends least (⟨.punct, ")", closing⟩ :: after) := .ofPunct (by decide) (by decide)
  have noCast := castAt?_parens inner ⟨.punct, "(", opening⟩ ⟨.punct, ")", closing⟩ after
  have last : lastStop state.prevEnd
      (read ++ [⟨.punct, "(", opening⟩] ++ inner.tokens ++ [⟨.punct, ")", closing⟩]) = closing.stop := by
    rw [lastStop_append]
    rfl
  change (readParens (readExprWithin env depth)).run _ = _
  rw [readParens, run_bind (run_here ..), run_bind (run_get _)]
  rw [State.rest_reach, noCast]
  rw [run_bind (run_bump ..), run_bind (reads.whole _ trace (Nat.zero_le _) (ends _) (ends _) enough),
    run_bind (run_expectPunct _ _ _ _ _ rfl), run_bind (run_spanFrom _ _ _ _ _ last), run_pure]
  simp [judge]

theorem readsAtom_list (opening : Span) (items : Listing Span)
    (reads : ∀ filled, items = .filled filled → filled.All fun item => 0 ≤ item.leftStrength ∧ item.Reads env state) :
    (list opening items).ReadsAtom env state := by
  refine .ofPrimary rfl nofun fun depth read after trace _ enough => ?_
  have last : lastStop state.prevEnd
      (read ++ [⟨.punct, "[", opening⟩] ++ items.write Token.mk .punct "]") = items.closing.stop := by
    rw [lastStop_append, items.lastStop_write]
  change (readList (readExprWithin env depth)).run _ = _
  rw [readList, run_bind (run_here ..), run_bind (run_bump ..)]
  cases items with
  | empty =>
    rw [Listing.write] at last
    rw [Listing.write, singleton_append, run_bind (run_eatPunct _ _ _ _ rfl)]
    rw [if_neg (by decide), run_bind (run_spanFrom _ _ _ _ _ last), run_pure]
    simp [judge, judgeList, Listing.judge]
  | filled items =>
    have shorter : (items.write Token.mk .punct "]" ++ after).length < depth := enough
    have ran : (readElements (readExprWithin env depth) _).run _ = _ :=
      (readsItems_readElements _).run (fun _ _ => .ofPunct (by decide) (by decide)) (by decide) (Nat.zero_le _) items
        (reads items rfl) (read ++ [⟨.punct, "[", opening⟩]) after trace shorter (Nat.le_succ _)
    obtain ⟨token, others, tokens, starts⟩ := items.write_eq_cons .punct "]"
    rw [Listing.write] at last ⊢
    rw [tokens, cons_append] at ran
    rw [tokens] at last
    rw [tokens, cons_append, run_bind (run_eatPunct_of_other _ _ _ _ starts.bracket)]
    rw [if_pos (by decide), run_bind (run_remaining ..), run_bind ran, run_bind (run_spanFrom _ _ _ _ _ last), run_pure]
    simp [judge, judgeList, Listing.judge]

theorem readsAtom_member {base : Expr Span} (dot : Span) (name : String) (place : Span)
    (atom : base.ReadsAtom env state) : (member base dot name place).ReadsAtom env state := by
  intro depth read after trace _ enough
  rw [tokens_member, append_assoc, cons_append, cons_append, nil_append] at enough ⊢
  have noArgs : ∀ token ∈ ((⟨.punct, ".", dot⟩ : Token) :: ⟨.ident, name, place⟩ :: after).head?,
      token.isPunct "(" = false := by
    intro token found
    obtain rfl : (⟨.punct, ".", dot⟩ : Token) = token := Option.some.inj found
    rfl
  obtain ⟨limit, more, ran⟩ := atom depth read _ trace noArgs enough
  cases limit with
  | zero => exact absurd more (Nat.not_lt_zero _)
  | succ limit =>
    refine ⟨limit, ?_, ?_⟩
    · rw [length_cons, length_cons] at more
      omega
    · rw [ran, readMembers, run_bind (run_eatPunct _ _ _ _ rfl), if_pos rfl, run_bind (run_peek ..)]
      change (if Token.isIdent ⟨.ident, name, place⟩ = true then _ else _ : Scan Typed).run _ = _
      rw [if_pos (by rfl), run_bind (run_bump ..), run_bind (run_conclude ..)]
      simp [judge, Judged.ofRule, Trace.append_assoc]

theorem readsOperand_cast (opening : Span) (word : TypeWord) (place closing : Span) {operand : Expr Span}
    (strong : frontStrength ≤ operand.leftStrength) (reads : operand.Reads env state) :
    (cast opening word place closing operand).ReadsOperand env state := by
  intro depth read after trace ends enough
  change Ends frontStrength after at ends
  have endsOperand := ends.mono (le_rightStrength (by decide) (Nat.le_refl _) strong)
  have shorter : (operand.tokens ++ after).length < depth := by
    change (operand.tokens ++ after).length + 3 ≤ depth at enough
    omega
  have noOp : (⟨.punct, "(", opening⟩ : Token).kind ≠ .op := nofun
  rw [tokens_cast, cons_append, cons_append, cons_append, run_readOperand_of_other noOp]
  change (readParens (readExprWithin env depth) >>= _).run _ = _
  have conversion : (readParens (readExprWithin env depth)).run
      (state.reach read (⟨.punct, "(", opening⟩ :: ⟨.ident, word.text, place⟩ :: ⟨.punct, ")", closing⟩ ::
        (operand.tokens ++ after)) trace) =
      (((cast opening word place closing operand).judge env state).typed,
        state.reach (read ++ (cast opening word place closing operand).tokens) after
          (trace ++ ((cast opening word place closing operand).judge env state).trace)) := by
    have target : castAt? (⟨.punct, "(", opening⟩ :: ⟨.ident, word.text, place⟩ :: ⟨.punct, ")", closing⟩ ::
        (operand.tokens ++ after)) = some word.type := word.named
    rw [readParens, run_bind (run_here ..), run_bind (run_get _), State.rest_reach, target]
    rw [run_bind (run_advance_three ..), run_bind (reads.whole _ trace strong ends endsOperand shorter), run_conclude]
    simp [judge, Judged.ofRule, Trace.append_assoc, tokens_cast]
  rw [run_bind conversion]
  exact run_readMembers_of_ends ends ..

theorem readsOperand_front (op : UnaryOp) (place : Span) {operand : Expr Span}
    (strong : frontStrength ≤ operand.leftStrength) (reads : operand.Reads env state) :
    (front op place operand).ReadsOperand env state := by
  intro depth read after trace ends enough
  change Ends frontStrength after at ends
  have endsOperand := ends.mono (le_rightStrength (by decide) (Nat.le_refl _) strong)
  have less : Token.isOp ⟨.op, op.symbol, place⟩ "<" = false := by cases op <;> rfl
  have sign : isFrontSign op.symbol := by cases op <;> rfl
  have step : isStepSign op.symbol = op.isStep := by cases op <;> rfl
  rw [tokens_front, cons_append, readOperand]
  change (if Token.isOp ⟨.op, op.symbol, place⟩ "<" = true then _
    else if (true && isFrontSign op.symbol) = true then _ else _ : Scan Typed).run _ = _
  rw [less, if_neg Bool.false_ne_true, sign, if_pos (by rfl), run_bind (run_bump ..),
    run_bind (reads.whole _ trace strong ends endsOperand enough)]
  simp only [step]
  cases stepping : op.isStep with
  | true =>
    rw [if_pos rfl, run_conclude]
    simp [judge, Judged.ofRule, Trace.append_assoc, stepping]
  | false =>
    rw [if_neg Bool.false_ne_true, run_conclude]
    simp [judge, Judged.ofRule, Trace.append_assoc, stepping]

theorem readsOperand_vector (opening : Span) (items : Items Span)
    (reads : items.All fun item => componentStrength ≤ item.leftStrength ∧ item.Reads env state) :
    (vector opening (.filled items)).ReadsOperand env state := by
  intro depth read after trace _ enough
  have weak : strengthBehind ">" < componentStrength := by decide
  have ran := (readsItems_readComponents _).run (fun _ _ => .inl ⟨rfl, weak⟩) (by decide) (by decide) items reads
      (read ++ [⟨.op, "<", opening⟩]) after trace enough (Nat.le_succ _)
  have last : lastStop state.prevEnd (read ++ [⟨.op, "<", opening⟩] ++ items.write Token.mk .op ">") =
      items.closing.stop := by
    rw [lastStop_append, items.lastStop_write]
  rw [tokens_vector, cons_append, readOperand, run_bind (run_get _)]
  change (readVector (readExprWithin env depth)).run _ = _
  rw [readVector, run_bind (run_here ..), run_bind (run_bump ..), run_bind (run_remaining ..), run_bind ran,
    run_bind (run_spanFrom _ _ _ _ _ last), run_bind (run_forM_note ..), run_conclude]
  simp [judge, judgeVector, Listing.judge, Listing.closing, Judged.ofRule, Trace.append_assoc,
    Function.comp_def]

/-! ## Operators behind an operand -/

theorem reads_behind {operand : Expr Span} (step : Step) (place : Span)
    (strong : behindStrength < operand.rightStrength) (reads : operand.Reads env state) :
    (behind operand step place).Reads env state := by
  intro depth least read after trace le ends enough
  change least ≤ behindStrength at le
  rw [tokens_behind, append_assoc, singleton_append] at enough ⊢
  obtain ⟨limit, more, ran⟩ := reads depth least read _ trace (Nat.le_trans le (behind_le_leftStrength strong))
    (Ends.ofStep strong) enough
  cases limit with
  | zero => exact absurd more (Nat.not_lt_zero _)
  | succ limit =>
    refine ⟨limit, ?_, ?_⟩
    · rw [length_cons] at more
      omega
    · have sign : isStepSign step.op.symbol := by cases step <;> rfl
      rw [ran, climb, run_bind (run_peek ..)]
      change (if false = true then _ else if isStepSign step.op.symbol = true then _ else _ : Scan Typed).run _ = _
      rw [if_neg Bool.false_ne_true, if_pos sign, if_neg (Nat.not_lt.mpr le), run_bind (run_bump ..),
        run_bind (run_conclude ..)]
      simp [judge, Judged.ofRule, Trace.append_assoc]

theorem reads_between {left : Expr Span} (op : BetweenOp) (place : Span) {right : Expr Span}
    (strong : op.left < left.rightStrength) (readsLeft : left.Reads env state)
    (enoughRight : op.right ≤ right.leftStrength) (readsRight : right.Reads env state) :
    (between left op place right).Reads env state := by
  intro depth least read after trace le ends enough
  change least ≤ op.left at le
  change Ends op.right after at ends
  rw [tokens_between, append_assoc, cons_append] at enough ⊢
  obtain ⟨limit, more, ran⟩ := readsLeft depth least read _ trace (Nat.le_trans le (left_le_leftStrength strong))
    (Ends.ofOp strong) enough
  cases limit with
  | zero => exact absurd more (Nat.not_lt_zero _)
  | succ limit =>
    have endsRight := ends.mono (le_rightStrength op.right_ne_two (Nat.le_of_lt op.right_lt) enoughRight)
    have shorter : (right.tokens ++ after).length < depth := by
      rw [length_append, length_cons] at enough
      omega
    refine ⟨limit, ?_, ?_⟩
    · rw [length_cons, length_append] at more
      omega
    · rw [ran, climb, run_bind (run_peek ..)]
      dsimp only [head?_cons]
      rw [if_neg (by decide), op.isStepSign_symbol, if_neg Bool.false_ne_true, op.strength?_symbol]
      dsimp only
      rw [if_neg (Nat.not_lt.mpr le), run_bind (run_bump ..),
        run_bind (readsRight.whole _ _ enoughRight ends endsRight shorter), op.rule_eq, run_bind (run_conclude ..)]
      simp [judge, Judged.ofRule, Trace.append_assoc]

end Expr

/-! ## The induction -/

/-- An expression is read as its tree says, and members can follow it if it is an atom. -/
inductive Expr.ReadsWell (env : Env) (state : State) (expr : Expr Span) : Prop
  | atom (reads : expr.ReadsAtom env state)
  | other (noAtom : expr.isAtom = false) (reads : expr.Reads env state)

theorem Expr.ReadsWell.reads (well : expr.ReadsWell env state) : expr.Reads env state := by
  cases well with
  | atom reads => exact reads.operand.reads
  | other _ reads => exact reads

theorem Expr.ReadsWell.readsAtom (well : expr.ReadsWell env state) (isAtom : expr.isAtom) :
    expr.ReadsAtom env state := by
  cases well with
  | atom reads => exact reads
  | other noAtom => exact absurd (noAtom.symm.trans isAtom) Bool.false_ne_true

mutual

/-- An expression with enough parentheses whose vectors all have components is read as its tree says. -/
theorem Expr.readsWell (expr : Expr Span) (readable : expr.erase.Readable) : expr.ReadsWell env state := by
  match expr, readable with
  | .number text place, _ => exact .atom (Expr.readsAtom_number text place)
  | .string text place, _ => exact .atom (Expr.readsAtom_string text place)
  | .name word place, _ => exact .atom (Expr.readsAtom_name word place)
  | .call callee place opening args, readable =>
    exact .atom (Expr.readsAtom_call callee place opening args (args.reads readable))
  | .member base dot word place, ⟨isAtom, readable⟩ =>
    have reads := (base.readsWell readable).readsAtom (base.isAtom_erase ▸ isAtom)
    exact .atom (Expr.readsAtom_member dot word place reads)
  | .parens opening inner closing, readable =>
    exact .atom (Expr.readsAtom_parens opening closing (inner.readsWell readable).reads)
  | .cast opening word place closing operand, ⟨strong, readable⟩ =>
    rw [operand.leftStrength_erase] at strong
    have reads := (operand.readsWell readable).reads
    exact .other rfl (Expr.readsOperand_cast opening word place closing strong reads).reads
  | .front op place operand, ⟨strong, readable⟩ =>
    rw [operand.leftStrength_erase] at strong
    exact .other rfl (Expr.readsOperand_front op place strong (operand.readsWell readable).reads).reads
  | .behind operand step place, ⟨strong, readable⟩ =>
    rw [operand.rightStrength_erase] at strong
    exact .other rfl (Expr.reads_behind step place strong (operand.readsWell readable).reads)
  | .between left op place right, ⟨strong, readableLeft, enough, readableRight⟩ =>
    rw [left.rightStrength_erase] at strong
    rw [right.leftStrength_erase] at enough
    have readsLeft := (left.readsWell readableLeft).reads
    exact .other rfl (Expr.reads_between op place strong readsLeft enough (right.readsWell readableRight).reads)
  | .vector opening (.filled items), readable =>
    exact .other rfl (Expr.readsOperand_vector opening items (items.reads readable)).reads
  | .list opening items, readable => exact .atom (Expr.readsAtom_list opening items (items.reads readable))

theorem Items.reads {least : Nat} (items : Items Span) (readable : items.erase.Readable least) :
    items.All fun item => least ≤ item.leftStrength ∧ item.Reads env state := by
  match items, readable with
  | .last item closing, ⟨strong, readable⟩ =>
    exact ⟨item.leftStrength_erase ▸ strong, (item.readsWell readable).reads⟩
  | .more item comma rest, ⟨strong, readable, readableRest⟩ =>
    exact ⟨⟨item.leftStrength_erase ▸ strong, (item.readsWell readable).reads⟩, rest.reads readableRest⟩

theorem Listing.reads {least : Nat} (listing : Listing Span) (readable : listing.erase.Readable least)
    (items : Items Span) (same : listing = .filled items) :
    items.All fun item => least ≤ item.leftStrength ∧ item.Reads env state := by
  match listing, readable with
  | .filled held, readable =>
    obtain rfl : held = items := Listing.filled.inj same
    exact held.reads readable

end

end ScriptLint.Analysis
