import ScriptLint.Proofs.Walks

/-!
# Steps of reading an expression

Reading an expression takes a few kinds of steps, whatever the tokens are: it passes over tokens, over parentheses in
pairs, and records findings, references and calls. A relation between states that allows these steps holds between the
state before an expression and the one behind it. Two readers that do the same with the parts of an expression do the
same with the whole.
-/

namespace ScriptLint.Analysis

open List

variable {α β : Type}

/-! ## Two scans from one state -/

/-- From a state two scans do the same, and something holds of what they give. -/
structure Agree (first other : Scan α) (state : State) (post : α → State → Prop) : Prop where
  same : first.run state = other.run state
  holds : Yields first state post

/-- From a state two scans do the same, by a relation. -/
abbrev AgreeBy (rel : State → State → Prop) (first other : Scan α) (state : State) : Prop :=
  Agree first other state fun _ after => rel state after

variable {rest : List Token}

theorem State.length_advance {state : State} {token : Token} (front : state.rest = token :: rest) :
    (state.advance 1).rest.length < state.rest.length := by
  simp [State.advance, front]

namespace Agree

variable {first other : Scan α} {next nextOther : α → Scan β} {state : State} {post : β → State → Prop}

theorem pure {value : α} {post : α → State → Prop} (holds : post value state) :
    Agree (Pure.pure value) (Pure.pure value) state post :=
  ⟨rfl, holds⟩

theorem mono {early late : α → State → Prop} (agree : Agree first other state early)
    (imp : ∀ value after, early value after → late value after) : Agree first other state late :=
  ⟨agree.same, agree.holds.mono imp⟩

theorem bind {early : α → State → Prop} (agree : Agree first other state early)
    (behind : ∀ value after, early value after → Agree (next value) (nextOther value) after post) :
    Agree (first >>= next) (other >>= nextOther) state post := by
  have later := behind _ _ agree.holds
  refine ⟨?_, later.holds⟩
  change (next (first.run state).1).run (first.run state).2 = (nextOther (other.run state).1).run (other.run state).2
  rw [later.same, agree.same]

theorem dropped {post : Unit → State → Prop}
    (agree : Agree (first >>= fun _ => Pure.pure ()) (other >>= fun _ => Pure.pure ()) state post) :
    Agree (discard first) (discard other) state post := agree

/-- What only looks at the state leaves it alone. -/
theorem look (scan : Scan α) {value : α} (looks : scan.run state = (value, state))
    (behind : Agree (next value) (nextOther value) state post) :
    Agree (scan >>= next) (scan >>= nextOther) state post := by
  have agree : Agree scan scan state fun found after => (found, after) = (value, state) := ⟨rfl, looks⟩
  refine agree.bind fun found after same => ?_
  obtain ⟨rfl, rfl⟩ := Prod.mk.inj same
  exact behind

section Unit

variable {next nextOther : Unit → Scan β}

theorem drop {count : Nat} (behind : Agree (next ()) (nextOther ()) (state.advance count) post) :
    Agree (advance count >>= next) (advance count >>= nextOther) state post :=
  ⟨behind.same, behind.holds⟩

theorem bump (behind : Agree (next ()) (nextOther ()) (state.advance 1) post) :
    Agree (Analysis.bump >>= next) (Analysis.bump >>= nextOther) state post :=
  behind.drop

theorem report {problem : Problem} {span : Span}
    (behind : Agree (next ()) (nextOther ()) (state.report ⟨problem, span⟩) post) :
    Agree (Analysis.report problem span >>= next) (Analysis.report problem span >>= nextOther) state post :=
  ⟨behind.same, behind.holds⟩

end Unit

variable {sign context : String} {next nextOther : Bool → Scan β}

section Sign

variable (there : ∀ token rest, state.rest = token :: rest → token.isPunct sign →
  Agree (next true) (nextOther true) (state.advance 1) post)

include there

/-- A sign is passed over if it is there. -/
theorem passing {scan : Scan Bool} {missing : State}
    (yields : ∀ {post : Bool → State → Prop}, Yields scan state post ↔
      if state.rest.head?.any (·.isPunct sign) then post true (state.advance 1) else post false missing)
    (absent : Agree (next false) (nextOther false) missing post) :
    Agree (scan >>= next) (scan >>= nextOther) state post := by
  have passed : Agree scan scan state fun found after => Agree (next found) (nextOther found) after post := by
    refine ⟨rfl, yields.mpr ?_⟩
    split
    · next found =>
      obtain ⟨token, rest, front, isSign⟩ := exists_of_head?_any found
      exact there token rest front isSign
    · exact absent
  exact passed.bind fun _ _ behind => behind

theorem eat (absent : Agree (next false) (nextOther false) state post) :
    Agree (eatPunct sign >>= next) (eatPunct sign >>= nextOther) state post :=
  passing there yields_eatPunct absent

/-- A sign is passed over. That it is missing is malformed. -/
theorem expect (absent : ∀ finding, finding.problem.code = .malformed →
      Agree (next false) (nextOther false) (state.report finding) post) :
    Agree (expectPunct sign context >>= next) (expectPunct sign context >>= nextOther) state post :=
  passing there yields_expectPunct (absent _ rfl)

end Sign

end Agree

/-! ## Findings -/

/-- A finding that does not say that a callable may not return: that is known only at its end. -/
def Harmless (finding : Option Finding) : Prop := ∀ found ∈ finding, found.problem.code ≠ .missingReturn

/-- Of all problems of form, only the number of components of a vector. -/
def Problem.Orderly (problem : Problem) : Prop :=
  problem.code = .malformed → ∃ count, problem = .componentCount count

/-- A finding about what an expression means. Of its form it only tells the number of components of a vector. -/
def Meant (finding : Option Finding) : Prop :=
  ∀ found ∈ finding, found.problem.code ≠ .missingReturn ∧ found.problem.Orderly

variable {finding : Finding}

section Findings

theorem harmless_none : Harmless none := fun _ absent => by cases absent

theorem harmless_some (other : (finding.problem.code == .missingReturn) = false) : Harmless (some finding) := by
  rintro _ ⟨⟩
  exact beq_eq_false_iff_ne.mp other

theorem harmless_of_malformed (malformed : finding.problem.code = .malformed) : Harmless (some finding) :=
  harmless_some (by rw [malformed]; rfl)

theorem meant_none : Meant none := fun _ absent => by cases absent

theorem meant_some_iff :
    Meant (some finding) ↔ finding.problem.code ≠ .missingReturn ∧ finding.problem.Orderly := by
  simp [Meant]

attribute [local grind =] meant_some_iff Problem.Orderly Problem.code Judgement.good Judgement.bad

attribute [local grind ←] meant_none

theorem unaryRule_meant (op : Token) (operand : Typed) : Meant (unaryRule op operand).finding := by
  grind [unaryRule]

theorem stepRule_meant (op : Token) (operand : Typed) (span : Span) : Meant (stepRule op operand span).finding := by
  grind [stepRule]

theorem binaryRule_meant (left : Typed) (op : Token) (right : Typed) : Meant (binaryRule left op right).finding := by
  grind [binaryRule]

theorem assignRule_meant (left : Typed) (op : Token) (right : Typed) : Meant (assignRule left op right).finding := by
  grind [assignRule]

theorem memberRule_meant (base : Typed) (name : Token) : Meant (memberRule base name).finding := by
  grind [memberRule]

theorem castRule_meant (opening : Span) (target : SemType) (operand : Typed) :
    Meant (castRule opening target operand).finding := by
  grind [castRule]

theorem elementFinding_meant (item : Typed) : Meant (elementFinding item) := by
  grind [elementFinding]

theorem componentFinding_meant (part : Typed) : Meant (componentFinding part) := by
  grind [componentFinding]

theorem vectorRule_meant (span : Span) (count : Nat) : Meant (vectorRule span count).finding := by
  grind [vectorRule.eq_def]

theorem conditionFindings_harmless (what : String) (condition : Typed) :
    ∀ finding ∈ conditionFindings what condition, Harmless (some finding) := by
  intro finding found
  rcases mem_append.mp found with found | found
  · obtain ⟨op, -, rfl⟩ := Option.map_eq_some_iff.mp (Option.mem_toList.mp found)
    exact harmless_some rfl
  · split at found
    · rw [mem_singleton.mp found]
      exact harmless_some rfl
    · cases found

theorem meaningOf_meant (env : Env) (state : State) (name : String) (span : Span) :
    Meant (meaningOf env state name span).finding := by
  grind [meaningOf, meaningOfDecl]

theorem checkArgs_meant (span : Span) (callee : String) (params : List Param) (args : List Typed) :
    Meant (checkArgs span callee params args) := by
  rw [checkArgs]
  split
  · grind
  · intro finding found
    obtain ⟨mismatch, -, rfl⟩ := Option.map_eq_some_iff.mp found
    grind

theorem checkCallee?_meant {env : Env} {state : State} {span : Span} {callee : String} {args : List Typed}
    {checked : Checked} (found : checkCallee? env state span callee args = some checked) :
    Meant checked.finding := by
  grind [checkCallee?, checkArgs_meant, checkSignatures, checkDefinition]

theorem checkCall_meant (env : Env) (state : State) (span : Span) (callee : String) (args : List Typed) :
    Meant (checkCall env state span callee args).finding := by
  rw [checkCall]
  split
  · next checked found => exact checkCallee?_meant found
  · split
    · next real _ =>
      dsimp only
      cases found : checkCallee? env state span real args with
      | none => grind [unknownCallee]
      | some => exact checkCallee?_meant found
    · grind [unknownCallee]

end Findings

/-! ## Passing over the parts of an expression -/

/-- A token that neither ends an expression nor stands in a pair. -/
def isPart (token : Token) : Bool :=
  !([";", "(", ")", "\x7b", "\x7d"].any token.isPunct)

section Tokens

variable {token : Token}

theorem isPart_of_isPunct {sign : String} (found : token.isPunct sign)
    (other : sign ∉ [";", "(", ")", "\x7b", "\x7d"]) : isPart token := by
  simp only [mem_cons, not_mem_nil, or_false, not_or] at other
  simp [isPart, isPunct_eq found, other]

theorem isPart_of_kind (other : token.kind ≠ .punct) : isPart token := by
  simp [isPart, (isBrace_of_kind other).2]

theorem isPart_of_op {test : Bool} (found : (token.kind == .op && test)) : isPart token :=
  isPart_of_kind (by rw [eq_of_beq (Bool.and_eq_true_iff.mp found).1]; decide)

theorem isPart_of_isIdent (ident : token.isIdent) : isPart token :=
  isPart_of_kind (by rw [eq_of_beq ident]; decide)

end Tokens

/-- The parenthesis behind what was read is passed over. Where it is missing, which is malformed, some other tokens may
be passed over, but no braces. -/
inductive Leaves (rel : State → State → Prop) (before : State) : State → Prop where
  | closed {inside : State} {closing : Token} {rest : List Token} (inner : rel before inside)
      (front : inside.rest = closing :: rest) (closes : closing.isPunct ")" = true) :
      Leaves rel before (inside.advance 1)
  | broken {inside : State} {finding : Finding} {count : Nat} (inner : rel before inside)
      (malformed : finding.problem.code = .malformed)
      (plain : ∀ token ∈ inside.rest.take count, isBrace token = false) :
      Leaves rel before ((inside.report finding).advance count)

/-- A relation between states that allows the steps of reading an expression. -/
structure Passage (rel : State → State → Prop) : Prop where
  refl (state : State) : rel state state
  trans {before middle after : State} (first : rel before middle) (second : rel middle after) : rel before after
  /-- Tokens are only dropped from the front. -/
  forward {before after : State} (passed : rel before after) : after.rest <:+ before.rest
  part {state : State} {token : Token} {rest : List Token} (front : state.rest = token :: rest)
    (plain : isPart token = true) : rel state (state.advance 1)
  group {before after : State} {opening : Token} {rest : List Token} (front : before.rest = opening :: rest)
    (opens : opening.isPunct "(" = true) (leaves : Leaves rel (before.advance 1) after) : rel before after
  report {state : State} {finding : Finding} (harmless : Harmless (some finding)) : rel state (state.report finding)
  /-- A reference to a name that was passed over. If it means a declaration, the name leads there. -/
  refer {before after : State} {name : Token} {rest : List Token} {target : Target}
    (front : before.rest = name :: rest) (ident : name.isIdent = true) (inner : rel (before.advance 1) after)
    (found : ∀ id, target = .decl id → after.declared.Finds name.text id) :
    rel before (after.refer ⟨name.text, name.span, target⟩)
  record (state : State) (calls : Array CallSite) : rel state { state with calls }

/-- Two functions agree, by a relation, wherever fewer tokens are left than some number. -/
def AgreeBelow (rel : State → State → Prop) (bound : Nat) (call other : α → Scan β) : Prop :=
  ∀ value state, state.rest.length < bound → AgreeBy rel (call value) (other value) state

variable {rel : State → State → Prop}

theorem AgreeBelow.mono {bound less : Nat} {call other : α → Scan β}
    (below : AgreeBelow rel bound call other) (le : less ≤ bound) : AgreeBelow rel less call other :=
  fun value state fewer => below value state (Nat.lt_of_lt_of_le fewer le)

namespace Passage

variable {rel : State → State → Prop} (passage : Passage rel) {state middle : State}

include passage

theorem length_le (passed : rel state middle) : middle.rest.length ≤ state.rest.length :=
  (passage.forward passed).length_le

theorem sign {sign : String} {token : Token} (begun : rel state middle)
    (front : middle.rest = token :: rest) (isSign : token.isPunct sign)
    (inside : sign ∉ [";", "(", ")", "\x7b", "\x7d"]) : rel state (middle.advance 1) :=
  passage.trans begun (passage.part front (isPart_of_isPunct isSign inside))

theorem since {first other : Scan α} (begun : rel state middle) (agree : AgreeBy rel first other middle) :
    Agree first other middle fun _ after => rel state after :=
  agree.mono fun _ _ more => passage.trans begun more

theorem note_agree {finding : Option Finding} (meant : Meant finding) (state : State) :
    AgreeBy rel (note finding) (note finding) state := by
  cases finding with
  | none => exact .pure (passage.refl state)
  | some => exact ⟨rfl, passage.report fun found isFound => (meant found isFound).1⟩

theorem conclude_agree {judgement : Judgement} (meant : Meant judgement.finding) (state : State) :
    AgreeBy rel (conclude judgement) (conclude judgement) state :=
  (passage.note_agree meant state).bind fun _ _ noted => .pure noted

theorem reportHere_agree {problem : Problem} (other : (problem.code == .missingReturn) = false) (state : State) :
    AgreeBy rel (reportHere problem) (reportHere problem) state :=
  ⟨rfl, yields_reportHere.mpr (passage.report (harmless_some other))⟩

theorem addRef_agree {name : Token} {target : Target} (front : state.rest = name :: rest)
    (ident : name.isIdent) (inner : rel (state.advance 1) middle)
    (found : ∀ id, target = .decl id → middle.declared.Finds name.text id) :
    Agree (addRef name.text name.span target) (addRef name.text name.span target) middle
      fun _ after => rel state after :=
  ⟨rfl, yields_addRef.mpr (passage.refer front ident inner found)⟩

theorem forM_note_agree {finding : Typed → Option Finding} (meant : ∀ part, Meant (finding part))
    (parts : List Typed) (state : State) :
    AgreeBy rel (parts.forM fun part => note (finding part)) (parts.forM fun part => note (finding part)) state := by
  induction parts generalizing state with
  | nil => exact .pure (passage.refl state)
  | cons part _ ih =>
    exact (passage.note_agree (meant part) state).bind fun _ after noted => passage.since noted (ih after)

end Passage

theorem recoverUnless_agree (found : Bool) (state : State) :
    Agree (recoverUnless found) (recoverUnless found) state fun _ after =>
      ∃ count, after = state.advance count ∧ ∀ token ∈ state.rest.take count, isBrace token = false := by
  cases found with
  | true => exact .pure ⟨0, rfl, forall_mem_nil _⟩
  | false => exact ⟨rfl, _, rfl, plain_of_recoveryLength 0 state.rest⟩

theorem Leaves.missing {before inside : State}
    (inner : rel before inside) (malformed : finding.problem.code = .malformed) :
    Leaves rel before (inside.report finding) := by
  change Leaves rel before ((inside.report finding).advance 0)
  exact .broken inner malformed (forall_mem_nil _)

theorem Leaves.since (passage : Passage rel) {before middle after : State}
    (begun : rel before middle) (leaves : Leaves rel middle after) : Leaves rel before after := by
  cases leaves with
  | closed inner front closes => exact .closed (passage.trans begun inner) front closes
  | broken inner malformed plain => exact .broken (passage.trans begun inner) malformed plain

/-! ## Rounds of the expression readers -/

/-- One argument of a call. -/
def argsRound (sub : Reader) (call : Unit → Scan (List Typed)) (_ : Unit) : Scan (List Typed) := do
  let before ← remaining
  let arg ← sub 0
  if ← eatPunct "," then
    let args ← call ()
    return arg :: args
  else
    let closed ← expectPunct ")" "to close the argument list"
    let after ← remaining
    recoverUnless (closed || after != before)
    return [arg]

/-- One component of a vector. -/
def componentsRound (sub : Reader) (call : Unit → Scan (List Typed)) (_ : Unit) : Scan (List Typed) := do
  let part ← sub componentStrength
  if ← eatPunct "," then
    let parts ← call ()
    return part :: parts
  else if ← atOp ">" then
    bump
    return [part]
  else
    reportHere .expectedComponent
    return [part]

/-- One element of a list. -/
def elementsRound (sub : Reader) (call : Unit → Scan Unit) (_ : Unit) : Scan Unit := do
  let item ← sub 0
  note (elementFinding item)
  if ← eatPunct "," then call ()
  else
    discard (expectPunct "]" "to close the list")

/-- One member of a value. -/
def membersRound (call : Typed → Scan Typed) (base : Typed) : Scan Typed := do
  if ← eatPunct "." then
    match ← peek with
    | some name =>
      if name.isIdent then
        bump
        let base ← conclude (memberRule base name)
        call base
      else
        reportHere .expectedMember
        return { type := .any, span := base.span }
    | none =>
      reportHere .expectedMember
      return { type := .any, span := base.span }
  else return base

/-- One operator behind an operand. -/
def climbRound (sub : Reader) (least : Nat) (call : Typed → Scan Typed) (left : Typed) : Scan Typed := do
  match ← peek with
  | none => return left
  | some op =>
    if op.kind != .op then return left
    else if isStepSign op.text then
      if behindStrength < least then return left
      else
        bump
        let left ← conclude (stepRule op left (left.span.cover op.span))
        call left
    else
      match strength? op.text with
      | none => return left
      | some (toLeft, toRight) =>
        if toLeft < least then return left
        else
          bump
          let right ← sub toRight
          let left ← conclude
            (if (toLeft, toRight) == assignStrength then assignRule left op right
            else binaryRule left op right)
          call left

/-- One expression, whose parts are read by `call`. -/
def exprRound (env : Env) (call : Reader) (least : Nat) : Scan Typed := do
  let left ← readOperand env call
  climb call least ((← remaining) + 1) left

theorem readMembers_succ (limit : Nat) : readMembers (limit + 1) = membersRound (readMembers limit) := by
  funext base
  rfl

theorem climb_succ (sub : Reader) (least limit : Nat) :
    climb sub least (limit + 1) = climbRound sub least (climb sub least limit) := by
  funext left
  rfl

theorem readExprWithin_succ (env : Env) (depth : Nat) :
    readExprWithin env (depth + 1) = exprRound env (readExprWithin env depth) := by
  funext least
  rfl

/-! ## Rounds that agree -/

section Rounds

variable {rel : State → State → Prop} (passage : Passage rel) {sub other : Reader} {bound : Nat} {state : State}

/-- Two recursions agree from a state on, if their rounds do. -/
theorem agree_limit {round roundOther : (α → Scan β) → α → Scan β} (rounds roundsOther : Nat → α → Scan β)
    (step : ∀ limit, rounds (limit + 1) = round (rounds limit))
    (stepOther : ∀ limit, roundsOther (limit + 1) = roundOther (roundsOther limit))
    (first : ∀ value state, AgreeBy rel (rounds 0 value) (roundsOther 0 value) state)
    (joint : ∀ {call other : α → Scan β} {state : State}, state.rest.length ≤ bound →
      AgreeBelow rel state.rest.length call other → ∀ value,
      AgreeBy rel (round call value) (roundOther other value) state)
    (limit : Nat) {state : State} (inside : state.rest.length ≤ bound) (value : α) :
    AgreeBy rel (rounds limit value) (roundsOther limit value) state := by
  induction limit generalizing state value with
  | zero => exact first value state
  | succ _ ih =>
    rw [step, stepOther]
    exact joint inside (fun value later fewer => ih (by omega) value) value

include passage

section

variable (parts : AgreeBelow rel (bound + 1) sub other)

include parts

theorem argsRound_agree (inside : state.rest.length ≤ bound)
    {call callOther : Unit → Scan (List Typed)} {post : State → Prop}
    (calls : ∀ after, after.rest.length < state.rest.length → rel state after →
      Agree (call ()) (callOther ()) after fun _ last => post last)
    (ends : ∀ after, Leaves rel state after → post after) (value : Unit) :
    Agree (argsRound sub call value) (argsRound other callOther value) state fun _ last => post last := by
  refine .look remaining rfl ((parts 0 state (Nat.lt_succ_of_le inside)).bind fun arg middle begun => ?_)
  have short := passage.length_le begun
  refine .eat (fun comma rest front isComma => ?_)
    (.expect (fun closing rest front closes => ?_) fun finding malformed => ?_)
  · have shorter := State.length_advance front
    exact (calls _ (by omega) (passage.sign begun front isComma (by decide))).bind fun args last done => .pure done
  · exact .look remaining rfl (.pure (ends _ (.closed begun front closes)))
  · refine .look remaining rfl ((recoverUnless_agree _ _).bind fun _ last recovered => .pure ?_)
    obtain ⟨count, rfl, plain⟩ := recovered
    exact ends _ (.broken begun malformed plain)

theorem componentsRound_agree (inside : state.rest.length ≤ bound)
    {call callOther : Unit → Scan (List Typed)} (calls : AgreeBelow rel state.rest.length call callOther)
    (value : Unit) :
    AgreeBy rel (componentsRound sub call value) (componentsRound other callOther value) state := by
  refine (parts _ state (Nat.lt_succ_of_le inside)).bind fun part middle begun => ?_
  have short := passage.length_le begun
  refine .eat (fun comma rest front isComma => ?_) (.look (atOp ">") rfl ?_)
  · have shorter := State.length_advance front
    have passed := passage.sign begun front isComma (by decide)
    exact (calls () _ (by omega)).bind fun args last more => .pure (passage.trans passed more)
  · split
    · next closes =>
      obtain ⟨token, rest, front, isOp⟩ := exists_of_head?_any closes
      exact .bump (.pure (passage.trans begun (passage.part front (isPart_of_op isOp))))
    · exact (passage.reportHere_agree rfl middle).bind fun _ last noted => .pure (passage.trans begun noted)

theorem elementsRound_agree (inside : state.rest.length ≤ bound)
    {call callOther : Unit → Scan Unit} (calls : AgreeBelow rel state.rest.length call callOther) (value : Unit) :
    AgreeBy rel (elementsRound sub call value) (elementsRound other callOther value) state := by
  refine (parts 0 state (Nat.lt_succ_of_le inside)).bind fun item middle begun => ?_
  refine (passage.note_agree (elementFinding_meant item) middle).bind fun _ noted more => ?_
  have begun := passage.trans begun more
  have short := passage.length_le begun
  refine .eat (fun comma rest front isComma => ?_)
    (.dropped (.expect (fun closing rest front closes => ?_) fun finding malformed => ?_))
  · have shorter := State.length_advance front
    exact passage.since (passage.sign begun front isComma (by decide)) (calls () _ (by omega))
  · exact .pure (passage.sign begun front closes (by decide))
  · exact .pure (passage.trans begun (passage.report (harmless_of_malformed malformed)))

end

theorem membersRound_agree {call callOther : Typed → Scan Typed}
    (calls : AgreeBelow rel state.rest.length call callOther) (base : Typed) :
    AgreeBy rel (membersRound call base) (membersRound callOther base) state := by
  refine .eat (fun dot rest front isDot => .look peek rfl ?_) (.pure (passage.refl state))
  have begun := passage.sign (passage.refl state) front isDot (by decide)
  have shorter := State.length_advance front
  split
  · next name found =>
    obtain ⟨behind, front⟩ := head?_eq_some_iff.mp found
    split
    · next ident =>
      have begun := passage.trans begun (passage.part front (isPart_of_isIdent ident))
      have shortest := State.length_advance front
      refine .bump ((passage.conclude_agree (memberRule_meant base name) _).bind fun base last noted => ?_)
      have short := passage.length_le noted
      exact passage.since (passage.trans begun noted) (calls base last (by omega))
    · exact (passage.reportHere_agree rfl _).bind fun _ last noted => .pure (passage.trans begun noted)
  · exact (passage.reportHere_agree rfl _).bind fun _ last noted => .pure (passage.trans begun noted)

theorem climbRound_agree (least : Nat) (parts : AgreeBelow rel bound sub other) (inside : state.rest.length ≤ bound)
    {call callOther : Typed → Scan Typed} (calls : AgreeBelow rel state.rest.length call callOther) (left : Typed) :
    AgreeBy rel (climbRound sub least call left) (climbRound other least callOther left) state := by
  have stays : AgreeBy rel (pure left) (pure left) state := .pure (passage.refl state)
  refine .look peek rfl ?_
  split
  · exact stays
  · next op found =>
    obtain ⟨rest, front⟩ := head?_eq_some_iff.mp found
    have shorter := State.length_advance front
    split
    · exact stays
    · next isOp =>
      have begun := passage.part front (isPart_of_kind fun punct => isOp (by rw [punct]; rfl))
      split
      · split
        · exact stays
        · refine .bump ((passage.conclude_agree (stepRule_meant _ _ _) _).bind fun left last noted => ?_)
          have short := passage.length_le noted
          exact passage.since (passage.trans begun noted) (calls left last (by omega))
      · split
        · exact stays
        · split
          · exact stays
          · refine .bump ((parts _ _ (by omega)).bind fun right middle more => ?_)
            have begun := passage.trans begun more
            refine (passage.conclude_agree ?_ middle).bind fun left last noted => ?_
            · split
              · exact assignRule_meant _ _ _
              · exact binaryRule_meant _ _ _
            · have short := passage.length_le more
              have shortest := passage.length_le noted
              exact passage.since (passage.trans begun noted) (calls left last (by omega))

end Rounds

/-! ## Expressions -/

/-- A conversion stands in three tokens. -/
theorem exists_of_castAt? {token : Token} {target : SemType}
    (cast : castAt? (token :: rest) = some target) :
    ∃ type closing behind, rest = type :: closing :: behind ∧ type.isIdent ∧ closing.isPunct ")" := by
  unfold castAt? at cast
  split at cast
  · next type closing behind same =>
    obtain ⟨-, rfl⟩ := List.cons.inj same
    split at cast
    · next both =>
      obtain ⟨ident, closes⟩ := Bool.and_eq_true_iff.mp both
      exact ⟨type, closing, behind, rfl, ident, closes⟩
    · cases cast
  · cases cast

section Expressions

variable {rel : State → State → Prop} (passage : Passage rel) {sub other : Reader} {bound : Nat} {state : State}

include passage

/-- Arguments are read up to the parenthesis behind them. -/
theorem readArgs_agree (limit : Nat) (enough : state.rest.length < limit)
    (parts : AgreeBelow rel (state.rest.length + 1) sub other) :
    Agree (readArgs sub limit) (readArgs other limit) state fun _ after => Leaves rel state after := by
  induction limit generalizing state with
  | zero => exact absurd enough (Nat.not_lt_zero _)
  | succ limit ih =>
    change Agree (argsRound sub (fun _ => readArgs sub limit) ()) (argsRound other (fun _ => readArgs other limit) ())
      state fun _ after => Leaves rel state after
    refine argsRound_agree passage parts (Nat.le_refl _) (fun after fewer more => ?_) (fun _ leaves => leaves) ()
    exact (ih (by omega) (parts.mono (by omega))).mono fun _ _ leaves => leaves.since passage more

theorem readComponents_agree (parts : AgreeBelow rel (bound + 1) sub other) (inside : state.rest.length ≤ bound)
    (limit : Nat) : AgreeBy rel (readComponents sub limit) (readComponents other limit) state :=
  agree_limit (fun limit _ => readComponents sub limit) (fun limit _ => readComponents other limit)
    (fun _ => rfl) (fun _ => rfl) (fun _ state => .pure (passage.refl state))
    (fun inside calls => componentsRound_agree passage parts inside calls) limit inside ()

theorem readElements_agree (parts : AgreeBelow rel (bound + 1) sub other) (inside : state.rest.length ≤ bound)
    (limit : Nat) : AgreeBy rel (readElements sub limit) (readElements other limit) state :=
  agree_limit (fun limit _ => readElements sub limit) (fun limit _ => readElements other limit)
    (fun _ => rfl) (fun _ => rfl) (fun _ state => .pure (passage.refl state))
    (fun inside calls => elementsRound_agree passage parts inside calls) limit inside ()

theorem readMembers_agree (limit : Nat) (base : Typed) (state : State) :
    AgreeBy rel (readMembers limit base) (readMembers limit base) state :=
  agree_limit readMembers readMembers readMembers_succ readMembers_succ (fun _ state => .pure (passage.refl state))
    (fun _ calls => membersRound_agree passage calls) limit (Nat.le_refl _) base

variable (parts : AgreeBelow rel bound sub other) (inside : state.rest.length ≤ bound) (env : Env)

include parts inside

theorem climb_agree (least limit : Nat) (left : Typed) :
    AgreeBy rel (climb sub least limit left) (climb other least limit left) state :=
  agree_limit (climb sub least) (climb other least) (climb_succ sub least) (climb_succ other least)
    (fun _ state => .pure (passage.refl state)) (fun inside calls => climbRound_agree passage least parts inside calls)
    limit inside left

theorem readCallArgs_agree : AgreeBy rel (readCallArgs sub) (readCallArgs other) state := by
  refine .eat (fun opening rest front opens => ?_) (.pure (passage.refl state))
  refine .eat (fun closing rest frontToo closes => .pure ?_) (.look remaining rfl ?_)
  · exact passage.group front opens (.closed (passage.refl _) frontToo closes)
  · have shorter := State.length_advance front
    refine (readArgs_agree passage _ (Nat.lt_succ_self _) (parts.mono (by omega))).mono fun _ after leaves => ?_
    exact passage.group front opens leaves

variable {token : Token} {rest : List Token} (front : state.rest = token :: rest)

include front

omit inside parts in
theorem readName_agree (ident : token.isIdent) :
    AgreeBy rel (do bump; readName env token) (do bump; readName env token) state := by
  refine .bump (.look get rfl ?_)
  refine (passage.addRef_agree front ident (passage.refl _) fun id target => .inl (meaningOf_target target)).bind ?_
  intro _ middle begun
  exact (passage.note_agree (meaningOf_meant _ _ _ _) middle).bind fun _ last noted =>
    .pure (passage.trans begun noted)

theorem readCall_agree (ident : token.isIdent) :
    AgreeBy rel (do bump; readCall env sub token) (do bump; readCall env other token) state := by
  have shorter := State.length_advance front
  refine .bump ((readCallArgs_agree passage parts (by omega)).bind fun args middle begun => ?_)
  refine .look (spanFrom token.span) rfl (.look get rfl ?_)
  have noted := passage.note_agree (checkCall_meant env middle token.span token.text args) middle
  have same : Agree _ _ middle fun _ after => rel middle after ∧ after.declared = middle.declared :=
    ⟨noted.same, noted.holds, by cases (checkCall env middle token.span token.text args).finding <;> rfl⟩
  refine same.bind fun _ last more => ?_
  have begun := passage.trans begun more.1
  refine (passage.addRef_agree front ident begun fun id target => ?_).bind fun _ behind referred => ?_
  · rw [more.2]
    exact .inr (.inl (checkCall_target target))
  · exact ⟨rfl, passage.trans referred (passage.record _ _)⟩

theorem readParens_agree (opens : token.isPunct "(") :
    AgreeBy rel (readParens sub) (readParens other) state := by
  refine .look here (run_here_eq state) (.look get rfl ?_)
  have shorter := State.length_advance front
  split
  · next target cast =>
    obtain ⟨type, closing, behind, rfl, ident, closes⟩ := exists_of_castAt? (front ▸ cast)
    have second : (state.advance 1).rest = type :: closing :: behind := by rw [State.advance, front]; rfl
    have third : ((state.advance 1).advance 1).rest = closing :: behind := by rw [State.advance, second]; rfl
    have passed := passage.group front opens (.closed (passage.part second (isPart_of_isIdent ident)) third closes)
    have same : ((state.advance 1).advance 1).advance 1 = state.advance 3 := by simp [State.advance, front]
    rw [same] at passed
    have short := State.length_advance third
    rw [same] at short
    refine .drop ((parts frontStrength _ ?_).bind fun operand last more => ?_)
    · have shortest := State.length_advance second
      omega
    · exact passage.since (passage.trans passed more) (passage.conclude_agree (castRule_meant _ _ operand) last)
  · refine .bump ((parts 0 _ (by omega)).bind fun inner middle begun => ?_)
    refine .expect (fun closing rest back closes => ?_) fun finding malformed => ?_
    · exact .look (spanFrom _) rfl (.pure (passage.group front opens (.closed begun back closes)))
    · exact .look (spanFrom _) rfl (.pure (passage.group front opens (.missing begun malformed)))

theorem readVector_agree (plain : isPart token) : AgreeBy rel (readVector sub) (readVector other) state := by
  refine .look here (run_here_eq state) (.bump (.look remaining rfl ?_))
  have begun := passage.part front plain
  have shorter := State.length_advance front
  refine (readComponents_agree passage (parts.mono (by omega)) (Nat.le_refl _) _).bind fun components middle more => ?_
  have begun := passage.trans begun more
  refine .look (spanFrom _) rfl ?_
  refine (passage.forM_note_agree componentFinding_meant _ middle).bind fun _ last noted => ?_
  exact passage.since (passage.trans begun noted) (passage.conclude_agree (vectorRule_meant _ _) last)

theorem readList_agree (plain : isPart token) : AgreeBy rel (readList sub) (readList other) state := by
  refine .look here (run_here_eq state) (.bump ?_)
  have begun := passage.part front plain
  have shorter := State.length_advance front
  refine .eat (fun closing rest back closes => ?_) (.look remaining rfl ?_)
  · exact .look (spanFrom _) rfl (.pure (passage.sign begun back closes (by decide)))
  · refine (readElements_agree passage (parts.mono (by omega)) (Nat.le_refl _) _).bind fun _ last more => ?_
    exact .look (spanFrom _) rfl (.pure (passage.trans begun more))

theorem readPrimary_agree (next : Option Token) :
    AgreeBy rel (readPrimary env sub token next) (readPrimary env other token next) state := by
  unfold readPrimary
  split
  · next number => exact .bump (.pure (passage.part front (isPart_of_kind (by rw [number]; decide))))
  · next str => exact .bump (.pure (passage.part front (isPart_of_kind (by rw [str]; decide))))
  · next ident =>
    have ident : token.isIdent := by rw [Token.isIdent, ident]; rfl
    split
    · exact readCall_agree passage parts inside env front ident
    · split
      · have reported : rel state (state.report ⟨.keywordInExpression token.text, token.span⟩) :=
          passage.report (harmless_some rfl)
        exact .report (.bump (.pure (passage.trans reported (passage.part front (isPart_of_isIdent ident)))))
      · exact readName_agree passage env front ident
  · split
    · next opens => exact readParens_agree passage parts inside front opens
    · next noParen =>
      split
      · next bracket => exact readList_agree passage parts inside front (isPart_of_isPunct bracket (by decide))
      · have reported : rel state (state.report ⟨.expectedExpression (some token.text), token.span⟩) :=
          passage.report (harmless_some rfl)
        refine .report ?_
        split
        · next inside =>
          -- The token neither ends the expression nor opens a block.
          simp only [endsExpr, any_cons, any_nil, Bool.or_false, Bool.not_eq_true', Bool.or_eq_false_iff]
            at inside
          have plain : isPart token := by simp [isPart, inside, noParen]
          exact .bump (.pure (passage.trans reported (passage.part front plain)))
        · exact .pure reported

omit front in
theorem readOperand_agree : AgreeBy rel (readOperand env sub) (readOperand env other) state := by
  refine .look get rfl ?_
  split
  · refine (passage.reportHere_agree rfl state).bind fun _ after noted => ?_
    exact .look here (run_here_eq after) (.pure noted)
  · next token rest front =>
    split
    · next less => exact readVector_agree passage parts inside front (isPart_of_op less)
    · split
      · next sign =>
        have begun := passage.part front (isPart_of_op sign)
        have shorter := State.length_advance front
        refine .bump ((parts frontStrength _ (by omega)).bind fun operand last more => ?_)
        have begun := passage.trans begun more
        split
        · exact passage.since begun (passage.conclude_agree (stepRule_meant _ _ _) last)
        · exact passage.since begun (passage.conclude_agree (unaryRule_meant _ _) last)
      · refine (readPrimary_agree passage parts inside env front rest.head?).bind fun base middle begun => ?_
        exact .look remaining rfl (passage.since begun (readMembers_agree passage _ base middle))

end Expressions

variable {rel : State → State → Prop}

/-- The parts of an expression begin behind its first token. -/
theorem exprRound_agree (passage : Passage rel) (env : Env) {call other : Reader} {state : State}
    (calls : AgreeBelow rel state.rest.length call other) (least : Nat) :
    AgreeBy rel (exprRound env call least) (exprRound env other least) state := by
  refine (readOperand_agree passage calls (Nat.le_refl _) env).bind fun left middle begun => .look remaining rfl ?_
  exact passage.since begun (climb_agree passage calls (passage.length_le begun) least _ left)

theorem readExprWithin_agree (passage : Passage rel) (env : Env) (depth least : Nat) (state : State) :
    AgreeBy rel (readExprWithin env depth least) (readExprWithin env depth least) state := by
  induction depth generalizing least state with
  | zero => exact .look here (run_here_eq state) (.pure (passage.refl state))
  | succ _ ih =>
    exact exprRound_agree passage env (fun least state _ => ih least state) least

/-- Reading an expression is made of the steps that a passage allows. -/
theorem readExpr_passes (passage : Passage rel) (env : Env) (state : State) :
    Yields (readExpr env) state fun _ after => rel state after := by
  have agree : AgreeBy rel (readExpr env) (readExpr env) state :=
    .look remaining rfl (readExprWithin_agree passage env _ 0 state)
  exact agree.holds

/-! ## Expressions as phrases -/

theorem plain_of_isPart {token : Token} (plain : isPart token) :
    isBrace token = false ∧ token.isPunct ";" = false := by
  simp only [isPart, any_cons, any_nil, Bool.or_false, Bool.not_eq_true', Bool.or_eq_false_iff] at plain
  simp [isBrace, plain]

theorem phrases_passage : Passage Phrases where
  refl := .refl
  trans := .trans
  forward := by
    rintro before after ⟨used, phrase⟩
    exact ⟨used, phrase.rest.symm⟩
  part := by
    intro state token rest front plain
    exact ⟨[token], .one front (plain_of_isPart plain).1 (plain_of_isPart plain).2⟩
  group := by
    intro before after opening rest front opens leaves
    have opened := phrases_one (by rw [front]; exact opens) (by decide)
    cases leaves with
    | closed inner back closes =>
      exact (opened.trans inner).trans (phrases_one (by rw [back]; exact closes) (by decide))
    | @broken _ finding count inner malformed plain =>
      refine (opened.trans (inner.report finding)).trans ⟨_, ⟨.take _ count, plain⟩, fun clean => ?_⟩
      exact absurd ((Pass.take _ count).clean clean) (State.not_clean_report malformed)
  report := fun _ => (Phrases.refl _).report _
  refer := by
    rintro before after name rest target front ident ⟨used, inner⟩ found
    have plain := plain_of_isIdent ident
    have whole := (Phrase.one front plain.1 (plain.2 ";")).trans inner
    refine ⟨_, ⟨.refer front ident inner.toPass fun id target => ?_, whole.plain⟩, whole.open_⟩
    rw [← whole.declared]
    exact found id target
  record := fun state calls => ⟨[], (Phrase.refl state).recordCalls calls⟩

theorem readsPhrase_readExpr (env : Env) : ReadsPhrase (readExpr env) := readExpr_passes phrases_passage env

end ScriptLint.Analysis
