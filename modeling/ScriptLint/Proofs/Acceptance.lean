import ScriptLint.Proofs.ControlFlow

/-!
# What is read without complaint

Whatever is read, findings are only added, and none of them is that a callable may not return: that is known only at
its end. Where none of the added ones says that something is malformed, an expression is a run of tokens without braces
and semicolons and with its parentheses in pairs.
-/

namespace ScriptLint.Analysis

open List

/-! ## Acceptance -/

/-- Running a scan from a state adds findings, and something holds unless one of them is malformed. -/
def Accepts {α : Type} (scan : Scan α) (state : State) (post : α → State → Prop) : Prop :=
  Yields scan state fun value after => ∃ added, after.findings.toList = state.findings.toList ++ added ∧
    (∀ finding ∈ added, finding.problem.code ≠ .missingReturn) ∧
    ((∀ finding ∈ added, finding.problem.code ≠ .malformed) → post value after)

section Accepts

variable {α β : Type} {scan : Scan α} {next : α → Scan β} {state : State} {post : β → State → Prop}

theorem Accepts.mono {first other : α → State → Prop} (accepts : Accepts scan state first)
    (imp : ∀ value after, first value after → other value after) : Accepts scan state other := by
  obtain ⟨added, same, others, holds⟩ := accepts
  exact ⟨added, same, others, fun fine => imp _ _ (holds fine)⟩

variable {first : α → State → Prop}

theorem accepts_of_findings (same : (scan.run state).2.findings = state.findings)
    (holds : Yields scan state first) : Accepts scan state first :=
  ⟨[], by rw [append_nil, same], forall_mem_nil _, fun _ => holds⟩

theorem accepts_pure {value : α} (holds : first value state) : Accepts (pure value) state first :=
  accepts_of_findings rfl holds

/-- What a first scan gives can be used at the end of the second one. -/
theorem Accepts.bind (accepts : Accepts scan state first)
    (more : ∀ value after, Accepts (next value) after fun result last => first value after → post result last) :
    Accepts (scan >>= next) state post := by
  obtain ⟨early, sameEarly, othersEarly, holdsEarly⟩ := accepts
  obtain ⟨late, sameLate, othersLate, holdsLate⟩ := more (scan.run state).1 (scan.run state).2
  refine ⟨early ++ late, ?_, forall_mem_append.mpr ⟨othersEarly, othersLate⟩, fun fine => ?_⟩
  · rw [← append_assoc, ← sameEarly]
    exact sameLate
  · obtain ⟨fineEarly, fineLate⟩ := forall_mem_append.mp fine
    exact holdsLate fineLate (holdsEarly fineEarly)

theorem Accepts.step {value : α} {after : State} (scan : Scan α) (run : scan.run state = (value, after))
    (same : after.findings = state.findings) (more : Accepts (next value) after post) :
    Accepts (scan >>= next) state post := by
  obtain ⟨added, sameMore, others, holds⟩ := more
  have runs : (scan >>= next).run state = (next value).run after := run_bind run
  rw [same] at sameMore
  rw [Accepts, Yields, runs]
  exact ⟨added, sameMore, others, holds⟩

theorem Accepts.dropped {next : Unit → Scan β} (accepts : Accepts (scan >>= fun _ => next ()) state post) :
    Accepts (discard scan >>= next) state post := accepts

end Accepts

section Primitives

variable {β : Type} {state : State} {post : β → State → Prop}

theorem Accepts.bump {next : Unit → Scan β} {token : Token} {rest : List Token} (front : state.rest = token :: rest)
    (more : (state.advance 1).rest = rest → Accepts (next ()) (state.advance 1) post) :
    Accepts (bump >>= next) state post := by
  refine .step Analysis.bump rfl rfl (more ?_)
  rw [State.advance, front]
  rfl

theorem Accepts.place {next : Span → Scan β} (more : Accepts (next state.place) state post) :
    Accepts (here >>= next) state post :=
  .step here (run_here_eq state) rfl more

theorem State.rest_of_front {token : Token} {rest : List Token} (front : state.rest = token :: rest) :
    state.rest = token :: (state.advance 1).rest := by
  rw [State.advance, front]
  rfl

theorem Accepts.eat {sign : String} {next : Bool → Scan β}
    (there : ∀ token, state.rest = token :: (state.advance 1).rest → token.isPunct sign →
      Accepts (next true) (state.advance 1) post)
    (absent : state.rest.head?.any (·.isPunct sign) = false → Accepts (next false) state post) :
    Accepts (eatPunct sign >>= next) state post := by
  rw [Accepts, yields_bind, yields_eatPunct]
  split
  · next found =>
    obtain ⟨token, rest, front, isSign⟩ := exists_of_head?_any found
    exact there token (State.rest_of_front front) isSign
  · next missing => exact absent (Bool.eq_false_iff.mpr missing)

variable {problem : Problem} {span : Span}

theorem accepts_report {post : Unit → State → Prop} (other : (problem.code == .missingReturn) = false)
    (holds : problem.code ≠ .malformed → post () (state.report ⟨problem, span⟩)) :
    Accepts (report problem span) state post := by
  refine ⟨[⟨problem, span⟩], Array.toList_push, ?_, fun fine => ?_⟩
  · exact fun finding found => by rw [mem_singleton.mp found]; exact beq_eq_false_iff_ne.mp other
  · exact holds (fine _ (mem_singleton_self _))

/-- Whatever comes after something malformed, it is not accepted. -/
theorem Accepts.refuse {next : Unit → Scan β} (malformed : problem.code = .malformed)
    (more : ∀ after, Accepts (next ()) after fun _ _ => True) : Accepts (report problem span >>= next) state post := by
  have refused : Accepts (report problem span) state fun _ _ => False :=
    accepts_report (by rw [malformed]; rfl) fun fine => absurd malformed fine
  exact refused.bind fun _ after => (more after).mono fun _ _ _ => False.elim

theorem Accepts.refuseHere {next : Unit → Scan β} (malformed : problem.code = .malformed)
    (more : ∀ after, Accepts (next ()) after fun _ _ => True) : Accepts (reportHere problem >>= next) state post := by
  rw [reportHere, bind_assoc]
  exact .place (.refuse malformed more)

/-- A sign is passed over. That it is missing is not accepted. -/
theorem Accepts.expect {sign context : String} {next : Bool → Scan β}
    (there : ∀ token, state.rest = token :: (state.advance 1).rest → token.isPunct sign →
      Accepts (next true) (state.advance 1) post)
    (absent : ∀ after, Accepts (next false) after fun _ _ => True) :
    Accepts (expectPunct sign context >>= next) state post := by
  rw [Accepts, yields_bind, yields_expectPunct]
  split
  · next found =>
    obtain ⟨token, rest, front, isSign⟩ := exists_of_head?_any found
    exact there token (State.rest_of_front front) isSign
  · let finding : Finding := ⟨.expected sign context (state.rest.head?.map Token.text), state.place⟩
    obtain ⟨added, same, others, -⟩ := absent (state.report finding)
    rw [State.report, Array.toList_push, append_assoc] at same
    have malformed : finding.problem.code = .malformed := rfl
    refine ⟨finding :: added, same, forall_mem_cons.mpr ⟨by rw [malformed]; decide, others⟩, fun fine => ?_⟩
    exact absurd malformed (fine finding mem_cons_self)

end Primitives

/-- A scan that passes over tokens by a relation wherever it starts. -/
def ReadsBy {α : Type} (rel : List Token → List Token → Prop) (scan : Scan α) : Prop :=
  ∀ state, Accepts scan state fun _ after => rel state.rest after.rest

/-- A scan that passes over no token. -/
abbrev ReadsNothing {α : Type} (scan : Scan α) : Prop := ReadsBy Eq scan

/-- A scan that changes neither tokens nor findings. -/
theorem readsNothing_of_same {α : Type} {scan : Scan α}
    (same : ∀ state, state.rest = (scan.run state).2.rest ∧ (scan.run state).2.findings = state.findings) :
    ReadsNothing scan :=
  fun state => accepts_of_findings (same state).2 (same state).1

namespace ReadsBy

variable {α β : Type} {scan : Scan α} {next : α → Scan β} {rel more whole : List Token → List Token → Prop}

theorem pure (refl : ∀ tokens, rel tokens tokens) (value : α) : ReadsBy rel (Pure.pure value) :=
  fun _ => accepts_pure (refl _)

theorem bind (first : ReadsBy rel scan) (second : ∀ value, ReadsBy more (next value))
    (join : ∀ {tokens middle rest}, rel tokens middle → more middle rest → whole tokens rest) :
    ReadsBy whole (scan >>= next) :=
  fun state => (first state).bind fun value after => (second value after).mono fun _ _ later early => join early later

/-- What passes over nothing can come first. -/
theorem andThen (first : ReadsNothing scan) (second : ∀ value, ReadsBy rel (next value)) :
    ReadsBy rel (scan >>= next) :=
  first.bind second (· ▸ ·)

theorem discard (reads : ReadsBy rel scan) : ReadsBy rel (Functor.discard scan) := fun state => reads state

end ReadsBy

theorem readsNothing_report {problem : Problem} (span : Span) (other : (problem.code == .missingReturn) = false) :
    ReadsNothing (report problem span) :=
  fun _ => accepts_report other fun _ => rfl

theorem readsNothing_note {finding : Option Finding} (harmless : Harmless finding) : ReadsNothing (note finding) := by
  cases finding with
  | none => exact .pure .refl _
  | some finding => exact readsNothing_report finding.span (beq_eq_false_iff_ne.mpr (harmless finding rfl))

theorem readsNothing_addRef (name : String) (span : Span) (target : Target) : ReadsNothing (addRef name span target) :=
  readsNothing_of_same fun _ => ⟨rfl, rfl⟩

/-- The signs that stand inside an expression, but not in pairs. -/
def InPart (sign : String) : Prop := sign ∉ [";", "(", ")", "\x7b", "\x7d"]

instance (sign : String) : Decidable (InPart sign) := inferInstanceAs (Decidable (_ ∉ _))

theorem readsSkip_eatPunct {sign : String} (inside : InPart sign) : ReadsBy Skips (eatPunct sign) := by
  intro state
  refine .eat (fun token front isSign => accepts_pure ?_) fun _ => accepts_pure (.refl state.rest)
  rw [front]
  exact .part (isPart_of_isPunct isSign inside) (.refl _)

/-- Recovery is only needed where something is malformed. -/
theorem accepts_recoverUnless (found : Bool) (state : State) :
    Accepts (recoverUnless found) state fun _ after => found → after = state := by
  cases found with
  | true => exact accepts_pure fun _ => rfl
  | false => exact accepts_of_findings rfl fun absent => by cases absent

/-! ## Expressions -/

/-- Findings are added, and tokens are passed over that may stand in an expression unless one of them is malformed. -/
def Admits (before after : State) : Prop :=
  after.rest <:+ before.rest ∧ ∃ added, after.findings.toList = before.findings.toList ++ added ∧
    (∀ finding ∈ added, finding.problem.code ≠ .missingReturn) ∧
    ((∀ finding ∈ added, finding.problem.code ≠ .malformed) → Skips before.rest after.rest)

namespace Admits

variable {before middle after : State}

theorem of_findings (forward : after.rest <:+ before.rest) (same : after.findings = before.findings)
    (skips : Skips before.rest after.rest) : Admits before after :=
  ⟨forward, [], by rw [append_nil, same], forall_mem_nil _, fun _ => skips⟩

theorem trans (first : Admits before middle) (second : Admits middle after) : Admits before after := by
  obtain ⟨forward, early, same, others, skips⟩ := first
  obtain ⟨forwardToo, late, sameToo, othersToo, skipsToo⟩ := second
  refine ⟨forwardToo.trans forward, early ++ late, by rw [sameToo, same, append_assoc],
    forall_mem_append.mpr ⟨others, othersToo⟩, fun fine => ?_⟩
  obtain ⟨fine, fineToo⟩ := forall_mem_append.mp fine
  exact (skips fine).trans (skipsToo fineToo)

theorem report {finding : Finding} (harmless : Harmless (some finding)) : Admits before (before.report finding) := by
  refine ⟨suffix_rfl, [finding], Array.toList_push, ?_, fun _ => .refl _⟩
  rw [forall_mem_singleton]
  exact harmless finding rfl

end Admits

theorem admits_passage : Passage Admits where
  refl state := .of_findings suffix_rfl rfl (.refl _)
  trans := .trans
  forward := And.left
  part := by
    intro state token rest front plain
    refine .of_findings (drop_suffix ..) rfl ?_
    rw [State.rest_of_front front]
    exact .part plain (.refl _)
  group := by
    intro before after opening rest front opens leaves
    have forward : (before.advance 1).rest <:+ before.rest := drop_suffix ..
    cases leaves with
    | closed inner back closes =>
      obtain ⟨onward, added, same, others, skips⟩ := inner
      refine ⟨((drop_suffix ..).trans onward).trans forward, added, same, others, fun fine => ?_⟩
      have skips := skips fine
      rw [State.rest_of_front back] at skips
      rw [State.rest_of_front front]
      exact .group opens skips closes (.refl _)
    | @broken _ finding _ inner malformed =>
      obtain ⟨onward, added, same, others, -⟩ := inner
      refine ⟨((drop_suffix ..).trans onward).trans forward, added ++ [finding], ?_, ?_, fun fine => ?_⟩
      · rw [← append_assoc]
        exact Array.toList_push.trans (congrArg (· ++ [finding]) same)
      · have harmless := harmless_of_malformed malformed finding rfl
        exact forall_mem_append.mpr ⟨others, forall_mem_singleton.mpr harmless⟩
      · exact absurd malformed (fine finding (mem_append_right _ (mem_singleton_self _)))
  report := .report
  refer := by
    intro before after name rest target front ident inner found
    obtain ⟨onward, added, same, others, skips⟩ := inner
    refine ⟨onward.trans (drop_suffix ..), added, same, others, fun fine => ?_⟩
    rw [State.rest_of_front front]
    exact .part (isPart_of_isIdent ident) (skips fine)
  record _ _ := .of_findings suffix_rfl rfl (.refl _)

/-- An expression is read up to some point outside its parentheses. -/
theorem readsSkip_readExpr (env : Env) : ReadsBy Skips (readExpr env) :=
  fun state => (readExpr_passes admits_passage env state).mono fun _ _ admits => admits.2

end ScriptLint.Analysis
