import ScriptLint.Proofs.ExprSteps
import ScriptLint.Proofs.ExprTyping

/-!
# Reading what is written

An expression that is written with the parentheses it needs is read back in full: with the type of its tree, with what
its tree finds wrong in its parts, and without a word about its form except for vectors with a wrong number of
components.
-/

namespace ScriptLint.Analysis

open List

/-! ## Problems of form -/

/-- Only orderly problems are found. -/
def Orderly (findings : List Finding) : Prop := ∀ finding ∈ findings, finding.problem.Orderly

namespace Orderly

theorem nil : Orderly [] := forall_mem_nil _

theorem append {first second : List Finding} (orderly : Orderly first) (orderlyMore : Orderly second) :
    Orderly (first ++ second) := forall_mem_append.mpr ⟨orderly, orderlyMore⟩

theorem join {traces : List Trace} (orderly : ∀ trace ∈ traces, Orderly trace.findings) :
    Orderly (Trace.join traces).findings := by
  induction traces with
  | nil => exact nil
  | cons trace _ ih =>
    exact (orderly trace mem_cons_self).append (ih fun trace found => orderly trace (mem_cons_of_mem _ found))

end Orderly

theorem Meant.orderly {finding : Option Finding} (meant : Meant finding) : Orderly finding.toList :=
  fun found isFound => (meant found (Option.mem_toList.mp isFound)).2

/-! ## What trees find -/

section Trees

variable (env : Env) (state : State)

theorem orderly_judgeVector (whole : Span) {parts : List Judged}
    (orderly : ∀ part ∈ parts, Orderly part.trace.findings) :
    Orderly (judgeVector whole parts).trace.findings := by
  refine .append (.append (.join ?_) (.join ?_)) (vectorRule_meant whole _).orderly
  · exact forall_mem_map.mpr orderly
  · exact forall_mem_map.mpr fun part _ => (componentFinding_meant part.typed).orderly

mutual

theorem Expr.orderly_judge (expr : Expr Span) : Orderly (expr.judge env state).trace.findings := by
  match expr with
  | .number .. | .string .. => exact .nil
  | .name word place => exact (meaningOf_meant env state word.text place).orderly
  | .call callee place _ args =>
    exact .append (.join (forall_mem_map.mpr args.orderly_judge))
      (checkCall_meant env state place callee.text _).orderly
  | .member base _ word place => exact base.orderly_judge.append (memberRule_meant _ _).orderly
  | .parens _ inner _ => exact inner.orderly_judge
  | .cast opening word _ _ operand => exact operand.orderly_judge.append (castRule_meant opening word.type _).orderly
  | .front op place operand =>
    refine operand.orderly_judge.append ?_
    split
    · exact (stepRule_meant _ _ _).orderly
    · exact (unaryRule_meant _ _).orderly
  | .behind operand step place => exact operand.orderly_judge.append (stepRule_meant _ _ _).orderly
  | .between left op place right =>
    refine (left.orderly_judge.append right.orderly_judge).append ?_
    cases op with
    | binary => exact (binaryRule_meant _ _ _).orderly
    | assign => exact (assignRule_meant _ _ _).orderly
  | .vector opening parts => exact orderly_judgeVector _ parts.orderly_judge
  | .list opening items =>
    refine .join (forall_mem_map.mpr fun item found => ?_)
    exact (items.orderly_judge item found).append (elementFinding_meant item.typed).orderly

theorem Items.orderly_judge (items : Items Span) : ∀ judged ∈ items.judge env state, Orderly judged.trace.findings := by
  match items with
  | .last item _ => exact forall_mem_singleton.mpr item.orderly_judge
  | .more item _ rest => exact forall_mem_cons.mpr ⟨item.orderly_judge, rest.orderly_judge⟩

theorem Listing.orderly_judge (listing : Listing Span) :
    ∀ judged ∈ listing.judge env state, Orderly judged.trace.findings := by
  match listing with
  | .empty _ => exact nofun
  | .filled items => exact items.orderly_judge

end

end Trees

/-! ## Reading -/

theorem Ends.ofEndsExpr {closer : Token} (ends : endsExpr closer) (least : Nat) (after : List Token) :
    Ends least (closer :: after) := by
  obtain ⟨sign, listed, isSign⟩ := any_eq_true.mp ends
  rw [Token.isPunct, Bool.and_eq_true, beq_iff_eq, beq_iff_eq] at isSign
  refine .inr ⟨isSign.1, ?_⟩
  rw [isSign.2]
  have others : ∀ sign ∈ [";", ",", ")", "]", "\x7d"], sign ≠ "(" ∧ sign ≠ "." := by decide
  exact others sign listed

/-- A tree with enough parentheses is read where a sign ends it. -/
theorem Expr.Reads.run_readExpr {env : Env} {state : State} {placed : Expr Span} (reads : placed.Reads env state)
    {closer : Token} {after : List Token} (ahead : state.rest = placed.tokens ++ closer :: after)
    (ends : endsExpr closer) :
    (readExpr env).run state =
      ((placed.judge env state).typed,
        state.reach placed.tokens (closer :: after) (placed.judge env state).trace) := by
  have start : state = state.reach [] (placed.tokens ++ closer :: after) {} := by
    simp [← ahead, State.reach]
  have whole := reads.whole [] {} (Nat.zero_le _) (.ofEndsExpr ends 0 after) (.ofEndsExpr ends _ after)
    (Nat.lt_succ_self (placed.tokens ++ closer :: after).length)
  conv => lhs; rw [start]
  rw [readExpr, run_bind (run_remaining ..)]
  exact whole

/-- What is written for a tree is read in full, up to the sign that ends it. It gives the type of the tree, it finds
what the tree with its parentheses finds in order, and of the form of the tree it only finds numbers of components. -/
theorem readExpr_render (env : Env) (state : State) (tree : Expr Unit) (filled : tree.Filled) {tokens : List Token}
    {closer : Token} {after : List Token} (ahead : state.rest = tokens ++ closer :: after)
    (written : tokens.map Token.sign = tree.render) (ends : endsExpr closer = true) :
    ∃ placed : Expr Span, placed.erase = tree.bracket ∧ placed.tokens = tokens ∧
      (readExpr env).run state =
        ((placed.judge env state).typed, state.reach tokens (closer :: after) (placed.judge env state).trace) ∧
      (placed.judge env state).typed.type = (tree.kind env state).type ∧
      Orderly (placed.judge env state).trace.findings := by
  obtain ⟨placed, shape, rfl⟩ := tree.bracket.exists_placed written
  have well : placed.ReadsWell env state := placed.readsWell (shape ▸ tree.readable_bracket filled)
  have kind : (placed.judge env state).typed.kind = tree.kind env state := by
    rw [placed.kind_judge, shape, tree.kind_bracket]
  exact ⟨placed, shape, rfl, well.reads.run_readExpr ahead ends, congrArg Kind.type kind,
    placed.orderly_judge env state⟩

/-- Tokens that stand one after another. -/
def lineUp (signs : List (TokenKind × String)) : List Token :=
  signs.mapIdx fun index (kind, text) => ⟨kind, text, ⟨index, index + 1⟩⟩

/-- What is looked up when nothing is defined. -/
def bareEnv : Env := ⟨0, ⟨[], 0⟩, {}, {}⟩

/-- Only some tokens to read. -/
def readingOf (tokens : List Token) : State := { rest := tokens, arena := .new 0 }

/-- The tree of `speed += -(1 + 2.5) * (<1, 2, 3>).x`. -/
def scaledSample : Expr Unit :=
  .between (.name ⟨"speed", rfl⟩ ()) (.assign .add) ()
    (.between (.front .neg () (.between (.number "1" ()) (.binary .add) () (.number "2.5" ()))) (.binary .mul) ()
      (.member
        (.vector () (.filled (.more (.number "1" ()) () (.more (.number "2" ()) () (.last (.number "3" ()) ())))))
        () "x" ()))

/-- The sample in front of a semicolon. -/
def scaledState : State := readingOf (lineUp scaledSample.render ++ [⟨.punct, ";", ⟨30, 31⟩⟩])

theorem readExpr_render_scaledSample :
    scaledSample.Filled ∧ (lineUp scaledSample.render).map Token.sign = scaledSample.render ∧
      ∃ placed : Expr Span, placed.erase = scaledSample.bracket ∧ placed.tokens = lineUp scaledSample.render ∧
        (readExpr bareEnv).run scaledState =
          ((placed.judge bareEnv scaledState).typed,
            scaledState.reach (lineUp scaledSample.render) [⟨.punct, ";", ⟨30, 31⟩⟩]
              (placed.judge bareEnv scaledState).trace) ∧
        (placed.judge bareEnv scaledState).typed.type = (scaledSample.kind bareEnv scaledState).type ∧
        Orderly (placed.judge bareEnv scaledState).trace.findings := by
  have filled : scaledSample.Filled := by
    simp [scaledSample, Expr.Filled, Items.Filled]
  have written : (lineUp scaledSample.render).map Token.sign = scaledSample.render := by
    decide +kernel
  have ahead : scaledState.rest = lineUp scaledSample.render ++ [⟨.punct, ";", ⟨30, 31⟩⟩] := by
    rw [scaledState, readingOf]
  exact ⟨filled, written, readExpr_render bareEnv scaledState scaledSample filled ahead written (by decide)⟩

/-- A vector without components. -/
def emptyVectorSample : Expr Unit := .vector () (.empty ())

/-- The tree of `(<1, 2, 3>).x`. -/
def vectorMemberSample : Expr Unit :=
  .member (.vector () (.filled (.more (.number "1" ()) () (.more (.number "2" ()) () (.last (.number "3" ()) ())))))
    () "x" ()

/-- The number of its components is not all that is found in the form of a vector without any, and without parentheses
around a vector none of its members is read. -/
theorem readExpr_vector_exceptions :
    ¬ Orderly ((readExpr bareEnv).run
        (readingOf (lineUp emptyVectorSample.render ++ [⟨.punct, ";", ⟨2, 3⟩⟩]))).2.findings.toList ∧
      ((readExpr bareEnv).run (readingOf (lineUp vectorMemberSample.signs ++ [⟨.punct, ";", ⟨9, 10⟩⟩]))).2.rest =
        [⟨.punct, ".", ⟨7, 8⟩⟩, ⟨.ident, "x", ⟨8, 9⟩⟩, ⟨.punct, ";", ⟨9, 10⟩⟩] := by
  constructor
  · intro orderly
    have found : (⟨.expectedExpression (some ">"), ⟨1, 2⟩⟩ : Finding) ∈ ((readExpr bareEnv).run
        (readingOf (lineUp emptyVectorSample.render ++ [⟨.punct, ";", ⟨2, 3⟩⟩]))).2.findings.toList := by
      decide +kernel
    obtain ⟨count, same⟩ := orderly _ found rfl
    cases same
  · decide +kernel

end ScriptLint.Analysis
