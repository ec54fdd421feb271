import ScriptLint.Proofs.ExprTree

/-!
# Running the scan of tokens

How the small steps of a scan act on a state that has read some tokens and recorded some things since it started.
-/

namespace ScriptLint.Analysis

namespace Trace

variable (first second third : Trace)

@[simp] theorem findings_append : (first ++ second).findings = first.findings ++ second.findings := rfl

@[simp] theorem refs_append : (first ++ second).refs = first.refs ++ second.refs := rfl

@[simp] theorem calls_append : (first ++ second).calls = first.calls ++ second.calls := rfl

theorem append_assoc : first ++ second ++ third = first ++ (second ++ third) := by
  ext1 <;> simp

@[simp] theorem append_empty : first ++ ({} : Trace) = first := by
  ext1 <;> simp

@[simp] theorem empty_append : ({} : Trace) ++ first = first := rfl

theorem ofFinding_append (finding : Option Finding) (refs : List Ref) (calls : List CallSite) :
    ofFinding finding ++ (({ refs } : Trace) ++ ({ calls } : Trace)) = ⟨finding.toList, refs, calls⟩ := by
  ext1 <;> simp [ofFinding]

@[simp] theorem join_nil : Trace.join [] = {} := rfl

@[simp] theorem join_cons (traces : List Trace) : Trace.join (first :: traces) = first ++ Trace.join traces := rfl

end Trace

/-- Where the last of some tokens ends. -/
def lastStop (start : Nat) (tokens : List Token) : Nat :=
  tokens.foldl (fun _ token => token.span.stop) start

theorem lastStop_append (start : Nat) (front back : List Token) :
    lastStop start (front ++ back) = lastStop (lastStop start front) back := by
  rw [lastStop, List.foldl_append, lastStop, lastStop]

@[simp] theorem lastStop_cons (start : Nat) (token : Token) (rest : List Token) :
    lastStop start (token :: rest) = lastStop token.span.stop rest := rfl

@[simp] theorem lastStop_nil (start : Nat) : lastStop start [] = start := rfl

/-- A state after some tokens were read and some things recorded, with what is left. -/
def State.reach (state : State) (read rest : List Token) (trace : Trace) : State :=
  { state with
    rest
    prevEnd := lastStop state.prevEnd read
    refs := state.refs ++ trace.refs.toArray
    calls := state.calls ++ trace.calls.toArray
    findings := state.findings ++ trace.findings.toArray }

@[simp] theorem State.rest_reach (state : State) (read rest : List Token) (trace : Trace) :
    (state.reach read rest trace).rest = rest := rfl

theorem State.reach_append (state : State) (read rest : List Token) (trace more : Trace) :
    state.reach read rest (trace ++ more) =
      { state.reach read rest trace with
        refs := (state.reach read rest trace).refs ++ more.refs.toArray
        calls := (state.reach read rest trace).calls ++ more.calls.toArray
        findings := (state.reach read rest trace).findings ++ more.findings.toArray } := by
  simp [reach]

theorem run_bind {α β : Type} {first : Scan α} {next : α → Scan β} {before after : State} {value : α}
    (ran : first.run before = (value, after)) : (first >>= next).run before = (next value).run after := by
  change (next (first.run before).1).run (first.run before).2 = _
  rw [ran]

theorem run_discard {α : Type} {first : Scan α} {before after : State} {value : α}
    (ran : first.run before = (value, after)) : (discard first : Scan Unit).run before = ((), after) := by
  change ((), (first.run before).2) = _
  rw [ran]

section Steps

variable (state : State) (read rest : List Token) (trace : Trace) {token : Token}

theorem run_pure {α : Type} (value : α) : (pure value : Scan α).run state = (value, state) := rfl

theorem run_get : (get : Scan State).run state = (state, state) := rfl

theorem run_peek : peek.run (state.reach read rest trace) = (rest.head?, state.reach read rest trace) := rfl

theorem run_remaining : remaining.run (state.reach read rest trace) = (rest.length, state.reach read rest trace) := rfl

theorem run_here : here.run (state.reach read (token :: rest) trace) =
    (token.span, state.reach read (token :: rest) trace) := rfl

theorem run_bump : bump.run (state.reach read (token :: rest) trace) =
    ((), state.reach (read ++ [token]) rest trace) := by
  change ((), State.advance 1 (state.reach read (token :: rest) trace)) = _
  simp [State.advance, State.reach, lastStop_append]

theorem run_advance_three (first second third : Token) :
    (advance 3).run (state.reach read (first :: second :: third :: rest) trace) =
      ((), state.reach (read ++ [first, second, third]) rest trace) := by
  change ((), State.advance 3 (state.reach read (first :: second :: third :: rest) trace)) = _
  simp [State.advance, State.reach, lastStop_append]

theorem run_atPunct (sign : String) : (atPunct sign).run (state.reach read (token :: rest) trace) =
    (token.isPunct sign, state.reach read (token :: rest) trace) := rfl

theorem run_eatPunct {sign : String} (found : token.isPunct sign) :
    (eatPunct sign).run (state.reach read (token :: rest) trace) =
      (true, state.reach (read ++ [token]) rest trace) := by
  rw [eatPunct, run_bind (run_atPunct ..), found, if_pos rfl, run_bind (run_bump state read rest trace)]
  rfl

theorem run_eatPunct_of_other {sign : String} (other : token.isPunct sign = false) :
    (eatPunct sign).run (state.reach read (token :: rest) trace) =
      (false, state.reach read (token :: rest) trace) := by
  rw [eatPunct, run_bind (run_atPunct ..), other]
  rfl

theorem run_expectPunct {sign : String} (context : String) (found : token.isPunct sign) :
    (expectPunct sign context).run (state.reach read (token :: rest) trace) =
      (true, state.reach (read ++ [token]) rest trace) := by
  rw [expectPunct, run_bind (run_eatPunct state read rest trace found)]
  rfl

theorem run_note (finding : Option Finding) :
    (note finding).run (state.reach read rest trace) =
      ((), state.reach read rest (trace ++ .ofFinding finding)) := by
  cases finding with
  | none =>
    rw [show Trace.ofFinding none = {} from rfl, Trace.append_empty]
    rfl
  | some =>
    rw [State.reach_append]
    change ((), State.mk _ _ _ _ _ _ _ _ _ _ _ _) = _
    simp [Trace.ofFinding]

theorem run_forM_note (finding : Typed → Option Finding) (parts : List Typed) :
    (parts.forM fun part => note (finding part)).run (state.reach read rest trace) =
      ((), state.reach read rest (trace ++ .join (parts.map fun part => .ofFinding (finding part)))) := by
  induction parts generalizing trace with
  | nil =>
    rw [List.map_nil, Trace.join_nil, Trace.append_empty]
    rfl
  | cons part parts ih =>
    change (note (finding part) >>= fun _ => parts.forM fun part => note (finding part)).run _ = _
    rw [run_bind (run_note ..), ih, Trace.append_assoc, List.map_cons, Trace.join_cons]

theorem run_addRef (name : String) (span : Span) (target : Target) :
    (addRef name span target).run (state.reach read rest trace) =
      ((state.reach read rest trace).refs.size,
        state.reach read rest (trace ++ { refs := [⟨name, span, target⟩] })) := by
  rw [State.reach_append]
  change (_, State.mk _ _ _ _ _ _ _ _ _ _ _ _) = _
  simp

theorem run_recordCall (site : CallSite) :
    (modify fun state => { state with calls := state.calls.push site } : Scan Unit).run (state.reach read rest trace) =
      ((), state.reach read rest (trace ++ { calls := [site] })) := by
  rw [State.reach_append]
  change ((), State.mk _ _ _ _ _ _ _ _ _ _ _ _) = _
  simp

theorem run_conclude (judgement : Judgement) :
    (conclude judgement).run (state.reach read rest trace) =
      (judgement.typed, state.reach read rest (trace ++ .ofFinding judgement.finding)) := by
  rw [conclude, run_bind (run_note state read rest trace judgement.finding)]
  rfl

theorem run_spanFrom (opening : Span) {closing : Span} (last : lastStop state.prevEnd read = closing.stop) :
    (spanFrom opening).run (state.reach read rest trace) =
      (spanOver opening closing, state.reach read rest trace) := by
  change (opening.cover (.empty (lastStop state.prevEnd read)), _) = _
  rw [last, spanOver]

end Steps

end ScriptLint.Analysis
