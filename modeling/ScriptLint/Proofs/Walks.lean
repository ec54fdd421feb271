import ScriptLint.Analysis
import ScriptLint.Proofs.ScanRuns

/-!
# Passing over tokens

Reading an expression, and most of reading a statement, passes over some tokens and records references, calls and
findings. It declares nothing, leaves the scopes alone and never passes over a brace, whatever the tokens are. An
expression ends in front of a semicolon unless something was found to be malformed.
-/

namespace ScriptLint.Analysis

open List

/-! ## Running a scan -/

/-- Running a scan from a state gives a value and a state of which something holds. -/
def Yields {α : Type} (scan : Scan α) (state : State) (post : α → State → Prop) : Prop :=
  post (scan.run state).1 (scan.run state).2

section Yields

variable {α β : Type} {scan : Scan α} {state : State} {post other : α → State → Prop}

theorem Yields.mono (yields : Yields scan state post) (imp : ∀ value after, post value after → other value after) :
    Yields scan state other := imp _ _ yields

theorem yields_bind {next : α → Scan β} {post : β → State → Prop} :
    Yields (scan >>= next) state post ↔ Yields scan state fun value after => Yields (next value) after post := .rfl

@[simp] theorem yields_pure {value : α} : Yields (pure value) state post ↔ post value state := .rfl

theorem yields_discard {post : Unit → State → Prop} :
    Yields (discard scan) state post ↔ Yields scan state fun _ after => post () after := .rfl

end Yields

variable {post : Bool → State → Prop}

section Primitives

variable {state : State}

@[simp] theorem yields_get {post : State → State → Prop} : Yields get state post ↔ post state state := .rfl

@[simp] theorem yields_modify {change : State → State} {post : Unit → State → Prop} :
    Yields (modify change) state post ↔ post () (change state) := .rfl

@[simp] theorem yields_peek {post : Option Token → State → Prop} :
    Yields peek state post ↔ post state.rest.head? state := .rfl

@[simp] theorem yields_remaining {post : Nat → State → Prop} :
    Yields remaining state post ↔ post state.rest.length state := .rfl

@[simp] theorem yields_prevEnd {post : Nat → State → Prop} :
    Yields prevEnd state post ↔ post state.prevEnd state := .rfl

@[simp] theorem yields_atPunct {sign : String} :
    Yields (atPunct sign) state post ↔ post (state.rest.head?.any (·.isPunct sign)) state := .rfl

@[simp] theorem yields_atOp {sign : String} :
    Yields (atOp sign) state post ↔ post (state.rest.head?.any (·.isOp sign)) state := .rfl

@[simp] theorem yields_advance {count : Nat} {post : Unit → State → Prop} :
    Yields (advance count) state post ↔ post () (state.advance count) := .rfl

@[simp] theorem yields_bump {post : Unit → State → Prop} : Yields bump state post ↔ post () (state.advance 1) := .rfl

@[simp] theorem yields_currentScope {post : Nat → State → Prop} :
    Yields currentScope state post ↔ post state.arena.current state := .rfl

@[simp] theorem yields_nextDecl {post : Nat → State → Prop} :
    Yields nextDecl state post ↔ post state.decls.size state := .rfl

/-- A place to report a problem: the next token, or the end of the last one. -/
def State.place (state : State) : Span := ((state.rest.head?).map Token.span).getD (.empty state.prevEnd)

@[simp] theorem yields_here {post : Span → State → Prop} : Yields here state post ↔ post state.place state := by
  unfold here State.place
  rw [yields_bind, yields_peek]
  cases state.rest.head? <;> exact .rfl

theorem run_here_eq (state : State) : here.run state = (state.place, state) :=
  (@yields_here state fun value after => (value, after) = (state.place, state)).mpr rfl

end Primitives

/-! ## Passing over tokens -/

namespace State

/-- A state with a finding recorded. -/
def report (state : State) (finding : Finding) : State := { state with findings := state.findings.push finding }

/-- A state with a reference recorded. -/
def refer (state : State) (ref : Ref) : State := { state with refs := state.refs.push ref }

/-- Nothing malformed was found. -/
def Clean (state : State) : Prop := ∀ finding ∈ state.findings.toList, finding.problem.code ≠ .malformed

end State

/-- What is declared in a state, and what waits to be. -/
structure Declared where
  arena : Arena
  decls : Array Decl
  states : NameMap Nat
  functions : NameMap Nat
  prototypes : List (Nat × Nat)
  callable : Option Callable

def State.declared (state : State) : Declared :=
  ⟨state.arena, state.decls, state.states, state.functions, state.prototypes, state.callable⟩

/-- A name leads to a declaration: from the open scopes, as a function, or as a state. -/
def Declared.Finds (declared : Declared) (name : String) (id : Nat) : Prop :=
  declared.arena.lookup name = some id ∨
    (∃ decl, (declared.functions.get? name).bind (fun id => declared.decls[id]?) = some decl ∧ decl.id = id) ∨
    declared.states.get? name = some id

/-- A reference that stands at one of some tokens. If it means a declaration, its name leads there. -/
structure Mention (declared : Declared) (used : List Token) (ref : Ref) : Prop where
  stands : ∃ token ∈ used, ref.name = token.text ∧ ref.span = token.span
  found : ∀ id, ref.target = .decl id → declared.Finds ref.name id

theorem Mention.weaken {declared : Declared} {used more : List Token} {ref : Ref} (mention : Mention declared used ref)
    (subset : ∀ token ∈ used, token ∈ more) : Mention declared more ref := by
  obtain ⟨token, found, same⟩ := mention.stands
  exact ⟨⟨token, subset token found, same⟩, mention.found⟩

theorem getLast?_getD_eq_lastStop (start : Nat) (tokens : List Token) :
    ((tokens.getLast?.map fun token => token.span.stop).getD start) = lastStop start tokens := by
  induction tokens generalizing start with
  | nil => rfl
  | cons token tokens ih =>
    rw [lastStop_cons, ← ih token.span.stop]
    cases tokens <;> rfl

/-- Where the names among some tokens stand. -/
def nameSpans (tokens : List Token) : List Span := (tokens.filter Token.isIdent).map Token.span

@[simp] theorem nameSpans_append (tokens more : List Token) :
    nameSpans (tokens ++ more) = nameSpans tokens ++ nameSpans more := by
  simp [nameSpans]

/-- Where the references stand. -/
def State.refSpans (state : State) : List Span := state.refs.toList.map Ref.span

/-- Some tokens are passed over. References and findings may be recorded, no two references for the same name, but
nothing is declared. -/
structure Pass (used : List Token) (before after : State) : Prop where
  rest : before.rest = used ++ after.rest
  prevEnd : after.prevEnd = lastStop before.prevEnd used
  declared : after.declared = before.declared
  refs : ∃ more, after.refs.toList = before.refs.toList ++ more ∧ ∀ ref ∈ more, Mention before.declared used ref
  findings : before.findings.toList <+: after.findings.toList
  names : ∀ span, after.refSpans.count span ≤ before.refSpans.count span + (nameSpans used).count span

variable {rest : List Token}

namespace Pass

variable {used more : List Token} {before middle after : State}

theorem refl (state : State) : Pass [] state state :=
  ⟨rfl, rfl, rfl, ⟨[], (append_nil _).symm, nofun⟩, prefix_rfl, fun _ => Nat.le_refl _⟩

theorem trans (first : Pass used before middle) (second : Pass more middle after) :
    Pass (used ++ more) before after where
  rest := by rw [first.rest, second.rest, append_assoc]
  prevEnd := by rw [second.prevEnd, first.prevEnd, lastStop_append]
  declared := second.declared.trans first.declared
  refs := by
    obtain ⟨early, earlyRefs, earlyMention⟩ := first.refs
    obtain ⟨late, lateRefs, lateMention⟩ := second.refs
    refine ⟨early ++ late, by rw [lateRefs, earlyRefs, append_assoc], fun ref found => ?_⟩
    rcases mem_append.mp found with found | found
    · exact (earlyMention ref found).weaken fun token => mem_append_left more
    · rw [first.declared] at lateMention
      exact (lateMention ref found).weaken fun token => mem_append_right used
  findings := first.findings.trans second.findings
  names span := by
    have early := first.names span
    have late := second.names span
    rw [nameSpans_append, count_append]
    omega

section

variable (pass : Pass used before after)

include pass

theorem arena : after.arena = before.arena := congrArg Declared.arena pass.declared

theorem decls : after.decls = before.decls := congrArg Declared.decls pass.declared

theorem clean (clean : after.Clean) : before.Clean :=
  fun finding found => clean finding (pass.findings.subset found)

theorem report (finding : Finding) : Pass used before (after.report finding) where
  rest := pass.rest
  prevEnd := pass.prevEnd
  declared := pass.declared
  refs := pass.refs
  findings := by
    refine pass.findings.trans ?_
    rw [State.report, Array.toList_push]
    exact prefix_append _ _
  names := pass.names

end

theorem take (state : State) (count : Nat) : Pass (state.rest.take count) state (state.advance count) where
  rest := (take_append_drop count state.rest).symm
  prevEnd := getLast?_getD_eq_lastStop ..
  declared := rfl
  refs := ⟨[], (append_nil _).symm, nofun⟩
  findings := prefix_rfl
  names _ := Nat.le_add_right _ _

theorem one {token : Token} {state : State} (front : state.rest = token :: rest) :
    Pass [token] state (state.advance 1) := by
  have pass := take state 1
  rwa [front] at pass

/-- A reference is recorded to the first of the tokens that were passed. -/
theorem refer {name : Token} {target : Target} (front : before.rest = name :: rest)
    (ident : name.isIdent) (pass : Pass used (before.advance 1) after)
    (leads : ∀ id, target = .decl id → before.declared.Finds name.text id) :
    Pass (name :: used) before (after.refer ⟨name.text, name.span, target⟩) := by
  have whole := (one front).trans pass
  refine ⟨whole.rest, whole.prevEnd, whole.declared, ?_, whole.findings, fun span => ?_⟩
  · obtain ⟨early, refs, mentions⟩ := whole.refs
    refine ⟨early ++ [⟨name.text, name.span, target⟩], by rw [State.refer, Array.toList_push, refs, append_assoc],
      fun other found => ?_⟩
    rcases mem_append.mp found with found | found
    · exact mentions other found
    · rw [mem_singleton.mp found]
      exact ⟨⟨name, mem_cons_self, rfl, rfl⟩, leads⟩
  · have inner := pass.names span
    have first : nameSpans (name :: used) = name.span :: nameSpans used := by simp [nameSpans, ident]
    rw [State.refSpans, State.refer, Array.toList_push, map_append, count_append, first, count_cons]
    change after.refSpans.count span + [name.span].count span ≤ before.refSpans.count span + _
    change _ ≤ before.refSpans.count span + _ at inner
    rw [count_singleton]
    omega

end Pass

/-- Whether a token opens or closes a block. -/
def isBrace (token : Token) : Bool := token.isPunct "\x7b" || token.isPunct "\x7d"

/-- Tokens are passed over, but no braces. -/
structure Walk (used : List Token) (before after : State) : Prop extends Pass used before after where
  plain : ∀ token ∈ used, isBrace token = false

/-- Tokens are passed over, but no braces, and no semicolons either unless something malformed was found. -/
structure Phrase (used : List Token) (before after : State) : Prop extends Walk used before after where
  open_ : after.Clean → ∀ token ∈ used, token.isPunct ";" = false

/-- A walk over some tokens. -/
def Walks (before after : State) : Prop := ∃ used, Walk used before after

/-- A phrase of some tokens. -/
def Phrases (before after : State) : Prop := ∃ used, Phrase used before after

namespace Walk

variable {used more : List Token} {before middle after : State}

theorem refl (state : State) : Walk [] state state := ⟨.refl state, nofun⟩

theorem trans (first : Walk used before middle) (second : Walk more middle after) : Walk (used ++ more) before after :=
  ⟨first.toPass.trans second.toPass, fun token found =>
    (mem_append.mp found).elim (first.plain token) (second.plain token)⟩

theorem report (walk : Walk used before after) (finding : Finding) : Walk used before (after.report finding) :=
  ⟨walk.toPass.report finding, walk.plain⟩

end Walk

namespace Phrase

variable {used more : List Token} {before middle after : State}

theorem refl (state : State) : Phrase [] state state := ⟨.refl state, fun _ => nofun⟩

theorem trans (first : Phrase used before middle) (second : Phrase more middle after) :
    Phrase (used ++ more) before after :=
  ⟨first.toWalk.trans second.toWalk, fun clean token found =>
    (mem_append.mp found).elim (first.open_ (second.clean clean) token) (second.open_ clean token)⟩

theorem report (phrase : Phrase used before after) (finding : Finding) : Phrase used before (after.report finding) :=
  ⟨phrase.toWalk.report finding, fun clean =>
    phrase.open_ (((Pass.refl after).report finding).clean clean)⟩

theorem one {token : Token} {state : State} (front : state.rest = token :: rest)
    (plain : isBrace token = false) (other : token.isPunct ";" = false) : Phrase [token] state (state.advance 1) :=
  ⟨⟨.one front, by simpa using plain⟩, fun _ => by simpa using other⟩

end Phrase

namespace Phrases

variable {before middle after : State}

theorem refl (state : State) : Phrases state state := ⟨[], .refl state⟩

theorem trans (first : Phrases before middle) (second : Phrases middle after) : Phrases before after := by
  obtain ⟨used, first⟩ := first
  obtain ⟨more, second⟩ := second
  exact ⟨used ++ more, first.trans second⟩

theorem report (phrases : Phrases before after) (finding : Finding) : Phrases before (after.report finding) := by
  obtain ⟨used, phrase⟩ := phrases
  exact ⟨used, phrase.report finding⟩

end Phrases

namespace Walks

variable {before middle after : State}

theorem refl (state : State) : Walks state state := ⟨[], .refl state⟩

theorem trans (first : Walks before middle) (second : Walks middle after) : Walks before after := by
  obtain ⟨used, first⟩ := first
  obtain ⟨more, second⟩ := second
  exact ⟨used ++ more, first.trans second⟩

theorem report (walks : Walks before after) (finding : Finding) : Walks before (after.report finding) := by
  obtain ⟨used, walk⟩ := walks
  exact ⟨used, walk.report finding⟩

theorem forward (walks : Walks before after) : after.rest <:+ before.rest :=
  walks.elim fun used walk => ⟨used, walk.rest.symm⟩

end Walks

theorem Phrases.walks {before after : State} (phrases : Phrases before after) : Walks before after := by
  obtain ⟨used, phrase⟩ := phrases
  exact ⟨used, phrase.toWalk⟩

/-! ## Signs and findings -/

section Signs

variable {state : State}

/-- The signs that neither open or close a block nor end a statement. -/
def InPhrase (sign : String) : Prop := sign ≠ "\x7b" ∧ sign ≠ "\x7d" ∧ sign ≠ ";"

instance (sign : String) : Decidable (InPhrase sign) := inferInstanceAs (Decidable (_ ∧ _ ∧ _))

variable {token : Token} {sign : String}

/-- A token is one sign only. -/
theorem isPunct_eq (found : token.isPunct sign) (other : String) : token.isPunct other = (sign == other) := by
  obtain ⟨kind, text⟩ := Bool.and_eq_true_iff.mp found
  rw [Token.isPunct, kind, Bool.true_and, eq_of_beq text]

theorem isBrace_of_isPunct (found : token.isPunct sign) (inside : InPhrase sign) :
    isBrace token = false ∧ token.isPunct ";" = false := by
  obtain ⟨notOpen, notClose, notEnd⟩ := inside
  rw [isBrace, isPunct_eq found, isPunct_eq found, isPunct_eq found, beq_eq_false_iff_ne.mpr notOpen,
    beq_eq_false_iff_ne.mpr notClose, beq_eq_false_iff_ne.mpr notEnd]
  exact ⟨rfl, rfl⟩

theorem isBrace_of_kind (other : token.kind ≠ .punct) : isBrace token = false ∧ ∀ sign, token.isPunct sign = false := by
  simp [isBrace, Token.isPunct, beq_eq_false_iff_ne.mpr other]

theorem plain_of_isIdent (ident : token.isIdent) : isBrace token = false ∧ ∀ sign, token.isPunct sign = false :=
  isBrace_of_kind (by rw [eq_of_beq ident]; decide)

@[simp] theorem yields_report {problem : Problem} {span : Span} {post : Unit → State → Prop} :
    Yields (report problem span) state post ↔ post () (state.report ⟨problem, span⟩) := .rfl

@[simp] theorem yields_reportHere {problem : Problem} {post : Unit → State → Prop} :
    Yields (reportHere problem) state post ↔ post () (state.report ⟨problem, state.place⟩) := by
  rw [reportHere, yields_bind, yields_here, yields_report]

theorem note_phrases (finding : Option Finding) : Yields (note finding) state fun _ after => Phrases state after := by
  cases finding with
  | none => exact .refl state
  | some finding => exact (Phrases.refl state).report finding

/-- A sign that is there is passed over. -/
theorem yields_eatPunct :
    Yields (eatPunct sign) state post ↔
      if state.rest.head?.any (·.isPunct sign) then post true (state.advance 1) else post false state := by
  rw [eatPunct, yields_bind, yields_atPunct]
  split
  · exact .rfl
  · exact .rfl

theorem yields_expectPunct {context : String} :
    Yields (expectPunct sign context) state post ↔
      if state.rest.head?.any (·.isPunct sign) then post true (state.advance 1)
      else post false (state.report ⟨.expected sign context (state.rest.head?.map Token.text), state.place⟩) := by
  rw [expectPunct, yields_bind, yields_eatPunct]
  split
  · exact .rfl
  · rw [if_neg Bool.false_ne_true, yields_bind, yields_peek, yields_bind, yields_reportHere, yields_pure]

theorem exists_of_head?_any {tokens : List Token} {test : Token → Bool} (found : tokens.head?.any test) :
    ∃ token rest, tokens = token :: rest ∧ test token := by
  cases tokens with
  | nil => cases found
  | cons token rest => exact ⟨token, rest, rfl, found⟩

theorem phrases_one (found : state.rest.head?.any (·.isPunct sign)) (inside : InPhrase sign) :
    Phrases state (state.advance 1) := by
  obtain ⟨token, rest, front, isSign⟩ := exists_of_head?_any found
  obtain ⟨plain, other⟩ := isBrace_of_isPunct isSign inside
  exact ⟨[token], .one front plain other⟩

theorem eatPunct_phrases (inside : InPhrase sign) :
    Yields (eatPunct sign) state fun _ after => Phrases state after := by
  rw [yields_eatPunct]
  split
  · next found => exact phrases_one found inside
  · exact .refl state

theorem State.not_clean_report {finding : Finding} (malformed : finding.problem.code = .malformed) :
    ¬(state.report finding).Clean := by
  intro clean
  refine clean finding ?_ malformed
  rw [State.report, Array.toList_push]
  exact mem_append_right _ mem_cons_self

/-! ## Recovery -/

/-- Recovery stops in front of braces. -/
theorem plain_of_recoveryLength (depth : Nat) (tokens : List Token) :
    ∀ token ∈ tokens.take (recoveryLength depth tokens), isBrace token = false := by
  fun_induction recoveryLength depth tokens with
  | case1 => exact nofun
  | case2 _ _ _ opens ih =>
    refine forall_mem_cons.mpr ⟨?_, ih⟩
    rcases Bool.or_eq_true_iff.mp opens with paren | bracket
    · exact (isBrace_of_isPunct paren (by decide)).1
    · exact (isBrace_of_isPunct bracket (by decide)).1
  | case3 _ _ _ _ closes ih =>
    refine forall_mem_cons.mpr ⟨?_, ih⟩
    rcases Bool.or_eq_true_iff.mp (Bool.and_eq_true_iff.mp closes).1 with paren | bracket
    · exact (isBrace_of_isPunct paren (by decide)).1
    · exact (isBrace_of_isPunct bracket (by decide)).1
  | case4 _ _ _ _ _ ends =>
    have semicolon := (Bool.and_eq_true_iff.mp ends).1
    rw [take_succ_cons, take_zero, forall_mem_singleton, isBrace, isPunct_eq semicolon,
      isPunct_eq semicolon]
    decide
  | case5 => exact nofun
  | case6 _ _ _ _ _ _ other ih =>
    exact forall_mem_cons.mpr ⟨by simpa [isBrace] using other, ih⟩

/-- Some tokens end where reading can go on: behind one that is no name, in front of a brace, or at the end. -/
def Settled (used rest : List Token) : Prop :=
  rest = [] ∨ rest.head?.any isBrace = true ∨ ∃ front last, used = front ++ [last] ∧ last.isIdent = false

theorem Settled.prepend {used rest : List Token} (settled : Settled used rest) (more : List Token) :
    Settled (more ++ used) rest := by
  rcases settled with ends | brace | ⟨front, last, rfl, other⟩
  · exact .inl ends
  · exact .inr (.inl brace)
  · exact .inr (.inr ⟨more ++ front, last, (append_assoc ..).symm, other⟩)

theorem isIdent_of_isPunct (found : token.isPunct sign) : token.isIdent = false := by
  rw [Token.isIdent, eq_of_beq (Bool.and_eq_true_iff.mp found).1]
  rfl

/-- A sign is where reading can go on. -/
theorem settled_of_isPunct (found : token.isPunct sign) (rest : List Token) : Settled [token] rest :=
  .inr (.inr ⟨[], token, rfl, isIdent_of_isPunct found⟩)

theorem settled_recoveryLength (depth : Nat) (tokens : List Token) :
    Settled (tokens.take (recoveryLength depth tokens)) (tokens.drop (recoveryLength depth tokens)) := by
  fun_induction recoveryLength depth tokens with
  | case1 => exact .inl rfl
  | case2 depth token rest _ ih | case3 depth token rest _ _ ih | case6 depth token rest _ _ _ _ ih =>
    exact ih.prepend [token]
  | case4 _ _ rest _ _ ends => exact settled_of_isPunct (Bool.and_eq_true_iff.mp ends).1 rest
  | case5 _ _ _ _ _ _ brace => exact .inr (.inl brace)

theorem recover_settles :
    Yields recover state fun _ after => ∃ used, Walk used state after ∧ Settled used after.rest := by
  exact ⟨_, ⟨.take state _, plain_of_recoveryLength 0 state.rest⟩, settled_recoveryLength 0 state.rest⟩

theorem recover_walks : Yields recover state fun _ after => Walks state after :=
  recover_settles.mono fun _ _ settles => settles.imp fun _ walk => walk.1

theorem recoverUnless_walks (found : Bool) : Yields (recoverUnless found) state fun _ after => Walks state after := by
  cases found with
  | true => exact .refl state
  | false => exact recover_walks

end Signs

/-! ## Expressions -/

/-- A scan that reads a phrase wherever it starts. -/
def ReadsPhrase {α : Type} (scan : Scan α) : Prop := ∀ state, Yields scan state fun _ after => Phrases state after

theorem readsPhrase_note (finding : Option Finding) : ReadsPhrase (note finding) := fun _ => note_phrases finding

theorem readsPhrase_reportHere (problem : Problem) : ReadsPhrase (reportHere problem) := by
  intro state
  rw [yields_reportHere]
  exact (Phrases.refl state).report _

variable {state : State} {span : Span}

theorem readsPhrase_remaining : ReadsPhrase remaining := fun state => .refl state

/-! ### Names and calls -/

/-- A call means a declaration only as one of the document's functions. -/
theorem checkCall_target {env : Env} {callee : String} {args : List Typed} {id : Nat}
    (target : (checkCall env state span callee args).target = .decl id) :
    ∃ decl, state.function? callee = some decl ∧ decl.id = id := by
  unfold checkCall at target
  split at target
  · rename_i checked found
    unfold checkCallee? at found
    split at found
    · rename_i decl isFunction
      obtain rfl := Option.some.inj found
      exact ⟨decl, isFunction, Target.decl.inj target⟩
    · grind
  · split at target <;> cases target

/-- A name in a value means a declaration only through the open scopes. -/
theorem meaningOf_target {env : Env} {name : String} {id : Nat}
    (target : (meaningOf env state name span).target = .decl id) : state.arena.lookup name = some id := by
  unfold meaningOf at target
  split at target
  · rename_i found isFound
    unfold meaningOfDecl at target
    dsimp only at target
    split at target
    · rw [isFound, Target.decl.inj target]
    · rw [isFound, Target.decl.inj target]
  · grind

theorem yields_addRef {name : String} {target : Target} {post : Nat → State → Prop} :
    Yields (addRef name span target) state post ↔ post state.refs.size (state.refer ⟨name, span, target⟩) := by
  change post ((state.refs.push ⟨name, span, target⟩).size - 1) _ ↔ _
  rw [Array.size_push]
  exact .rfl

theorem Phrase.recordCalls {used : List Token} {before after : State} (phrase : Phrase used before after)
    (calls : Array CallSite) : Phrase used before { after with calls } :=
  ⟨⟨⟨phrase.rest, phrase.prevEnd, phrase.declared, phrase.refs, phrase.findings, phrase.names⟩, phrase.plain⟩,
    phrase.open_⟩

theorem bump_phrases {token : Token} (front : state.rest = token :: rest)
    (other : token.kind ≠ .punct) : Phrases state (state.advance 1) :=
  ⟨[token], .one front (isBrace_of_kind other).1 ((isBrace_of_kind other).2 ";")⟩

end ScriptLint.Analysis
