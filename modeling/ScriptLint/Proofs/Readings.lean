import ScriptLint.Proofs.Sightings

/-!
# What holds while a document is read

Every step keeps the scopes nested, the tables consistent, the declarations made in advance in wait and the references
resolved and remembered. Statements do so wherever they stand. A callable also needs to know what its name can have
been declared as in advance, which depends on the tokens in front of it.
-/

namespace ScriptLint.Analysis

open List

/-- What holds between two steps. A span that is pending is that of the callable whose end was just read. -/
structure Sound (env : Env) (all : List Token) (stop : Nat) (pending : Option Span) (state : State) : Prop where
  placed : Placed env.length stop state
  consistent : Consistent env all state
  awaiting : Awaiting env all state
  resolves : Resolves pending stop state
  watched : Watched stop state

/-- Declarations are only added, and what lies in a scope stays there. -/
structure Grows (stop : Nat) (before after : State) : Prop where
  keeps : Keeps before after
  holds : ∀ {id : Nat} {span : Span}, before.arena.Holds before.prevEnd stop id span →
    after.arena.Holds after.prevEnd stop id span

theorem Grows.trans {stop : Nat} {before middle after : State} (first : Grows stop before middle)
    (second : Grows stop middle after) : Grows stop before after :=
  ⟨first.keeps.trans second.keeps, fun held => second.holds (first.holds held)⟩

/-- A step that keeps what holds. -/
def Sustains (env : Env) (all : List Token) (stop : Nat) (before after : State) : Prop :=
  ∀ pending, Sound env all stop pending before → Sound env all stop pending after ∧ Grows stop before after

section Steps

variable {env : Env} {all used : List Token} {stop : Nat} {pending : Option Span} {before middle after state : State}

/-- What is left to read and what was referred to do not change. -/
theorem Sound.grow (sound : Sound env all stop pending before) (placed : Placed env.length stop after)
    (consistent : Consistent env all after) (rest : after.rest ⊆ before.rest)
    (prototypes : after.prototypes = before.prototypes) (refs : after.refs = before.refs) (watched : Watched stop after)
    (grows : Grows stop before after) : Sound env all stop pending after ∧ Grows stop before after :=
  ⟨⟨placed, consistent, sound.awaiting.mono rest prototypes grows.keeps,
    sound.resolves.mono refs grows.keeps grows.holds, watched⟩, grows⟩

namespace Sustains

theorem trans (first : Sustains env all stop before middle) (second : Sustains env all stop middle after) :
    Sustains env all stop before after := by
  intro pending sound
  obtain ⟨between, grows⟩ := first pending sound
  obtain ⟨sound, more⟩ := second pending between
  exact ⟨sound, grows.trans more⟩

theorem pass (pass : Pass used before after) : Sustains env all stop before after := by
  intro pending sound
  have le := sound.placed.le_prevEnd (.pass pass)
  have keeps : Keeps before after := .of_eq pass.decls
  have prototypes : after.prototypes = before.prototypes := congrArg Declared.prototypes pass.declared
  have rest : after.rest ⊆ before.rest := by
    rw [pass.rest]
    exact subset_append_right ..
  refine ⟨⟨sound.placed.pass pass, sound.consistent.of_declared pass.declared,
    sound.awaiting.mono rest prototypes keeps, sound.resolves.pass sound.placed sound.consistent pass,
    sound.watched.pass sound.placed sound.consistent pass⟩, keeps, fun held => ?_⟩
  rw [pass.arena]
  exact held.mono le

theorem refl (state : State) : Sustains env all stop state state := .pass (.refl state)

theorem within (callable : Option Callable) (state : State) : Sustains env all stop state (state.within callable) :=
  fun _ sound => sound.grow (sound.placed.within callable) (sound.consistent.within callable) (Subset.refl _) rfl rfl
    (sound.watched.same rfl rfl rfl rfl) ⟨.of_eq rfl, id⟩

theorem enter (kind : ScopeKind) {token : Token} {rest : List Token} (front : state.rest = token :: rest) :
    Sustains env all stop state (state.enter env kind) := by
  intro pending sound
  have le := sound.placed.le_prevEnd (.pass (.one front))
  exact sound.grow (sound.placed.enter front)
    (sound.consistent.of_names rfl rfl rfl fun _ _ => Arena.named?_push) (drop_subset 1 _) rfl rfl
    (sound.watched.enter sound.placed kind front) ⟨.of_eq rfl, fun held => held.push.mono le⟩

theorem leave (scope : Nat) (state : State) : Sustains env all stop state (state.leave scope) :=
  fun _ sound => sound.grow (sound.placed.leave scope)
    (sound.consistent.of_names rfl rfl rfl fun _ _ => Arena.named?_popTo) (Subset.refl _) rfl rfl
    (sound.watched.leave sound.placed.laminar scope) ⟨.of_eq rfl, fun held => held.popTo sound.placed.laminar scope⟩

theorem close (state : State) : Sustains env all stop state state.close :=
  fun _ sound => sound.grow sound.placed.close
    (sound.consistent.of_names rfl rfl rfl fun _ _ => Arena.named?_pop) (Subset.refl _) rfl rfl
    (sound.watched.close sound.placed.laminar) ⟨.of_eq rfl, fun held => held.pop sound.placed.laminar⟩

end Sustains

variable (sound : Sound env all stop pending state)

include sound

theorem Sound.addDecl (decl : Decl) (numbered : decl.id = state.decls.size)
    (holds : state.arena.Holds state.prevEnd stop decl.scope decl.span)
    (isLocal : IsLocal decl.kind → decl.span.start ≤ decl.span.stop ∧ decl.span.stop ≤ state.prevEnd) :
    Sound env all stop pending (state.addDecl decl) ∧ Grows stop state (state.addDecl decl) :=
  sound.grow (sound.placed.addDecl holds fun local_ => (isLocal local_).2) (sound.consistent.addDecl numbered)
    (Subset.refl _) rfl rfl (sound.watched.addDecl sound.resolves fun local_ => (isLocal local_).1)
    ⟨keeps_addDecl state decl, id⟩

theorem Sound.bind {name : String} {id : Nat} {decl : Decl}
    (there : state.decls[id]? = some decl) (named : decl.name = name) (kind : decl.kind ≠ .label)
    (scope : decl.scope = state.arena.current)
    (late : state.arena.current ≠ Arena.globalScope → ∀ ref ∈ state.refs.toList, ∀ target, MeansValue state ref target →
      Late ref decl) :
    Sound env all stop pending (state.bind name id) ∧ Grows stop state (state.bind name id) :=
  sound.grow (sound.placed.bind name id) (sound.consistent.bind there named kind scope) (Subset.refl _) rfl rfl
    (sound.watched.bind there late) ⟨.of_eq rfl, fun held => held.declare _ name id⟩

/-- A declaration whose name was passed is written again, when the callable that is pending is the one it declares. -/
theorem Sound.setDecl {id : Nat} {old : Decl} {change : Decl → Decl}
    (there : state.decls[id]? = some old) (refits : Refits env all old (change old))
    (holds : state.arena.Holds state.prevEnd stop (change old).scope (change old).span)
    (passed : ∀ token ∈ state.rest, old.span.start < token.span.start)
    (covers : ∀ span, pending = some span → IsCallable (change old).kind ∧ Encloses (change old).fullSpan span) :
    Sound env all stop none (state.setDecl id change) :=
  ⟨sound.placed.setDecl there holds refits.notLocal_new, sound.consistent.setDecl there refits,
    sound.awaiting.setDecl there passed, sound.resolves.setDecl there refits covers, sound.watched.setDecl there refits⟩

end Steps

/-! ## Statements -/

section Statements

variable {env : Env} {all used : List Token} {stop floor : Nat} {pending : Option Span} {before after : State}

/-- A name that was passed is declared where it stands. -/
theorem Sound.addName {middle : State} (sound : Sound env all stop pending before)
    (pass : Pass used before middle) (name : Token) (found : name ∈ used) (kind : DeclKind) (type : SemType)
    (full : Span) :
    let added := middle.addDecl ⟨middle.decls.size, name.text, kind, type, [], name.span, full, middle.arena.current⟩
    Sound env all stop pending added ∧ Grows stop before added := by
  obtain ⟨soundMiddle, grows⟩ := Sustains.pass pass pending sound
  obtain ⟨_, filled, reached⟩ := sound.placed.passes (.pass pass) found
  obtain ⟨soundAdded, growsAdded⟩ := soundMiddle.addDecl
    ⟨_, name.text, kind, type, [], name.span, full, _⟩ rfl (sound.placed.holds_token pass found)
    fun _ => ⟨Nat.le_of_lt filled, reached⟩
  exact ⟨soundAdded, grows.trans growsAdded⟩

theorem Body.sustains (body : Body env used before after) : Sustains env all stop before after := by
  induction body with
  | walk walk => exact .pass walk.toPass
  | trans _ _ first second => exact first.trans second
  | @declare used _ _ _ typeToken name kind isValue type full front typed ident value _ reaches =>
    intro pending sound
    have whole := (walk_two front typed ident).trans value
    obtain ⟨soundAdded, grows⟩ := sound.addName whole.toPass name (by simp) kind type full
    have notLabel : kind ≠ .label := by rcases isValue with rfl | rfl <;> decide
    obtain ⟨soundBound, growsBound⟩ := soundAdded.bind (getElem?_addDecl_size ..) rfl notLabel rfl
      fun _ ref found id means => sound.watched.late_of_value sound.placed isValue front typed ident value rfl reaches
        found
        (means.of_addDecl (Sustains.pass whole.toPass pending sound).1.resolves found)
    exact ⟨soundBound, grows.trans growsBound⟩
  | @label _ _ mark name front plain ident =>
    intro pending sound
    obtain ⟨soundAdded, grows⟩ := sound.addName (walk_two front plain ident).toPass name (by simp) .label .void
      (mark.span.cover name.span)
    obtain ⟨soundLast, growsLast⟩ := Sustains.within _ _ pending soundAdded
    exact ⟨soundLast, grows.trans growsLast⟩
  | jump front plain ident =>
    exact (Sustains.pass (walk_unresolved front plain ident).toPass).trans (.within _ _)
  | @block _ _ _ middle _ front _ _ _ ih =>
    exact (Sustains.enter .block front).trans (ih.trans ((Sustains.pass (.take middle 1)).trans (.leave _ _)))
  | loop front _ _ ih => exact (Sustains.enter .forHeader front).trans (ih.trans (.leave _ _))

/-- The label that is set is the only one that is new. -/
theorem get?_labels_label {state : State} {mark : Span} {name : Token} {other : String} {id : Nat}
    (found : (state.label mark name).labels.get? other = some id) :
    state.labels.get? other = some id ∨ other = name.text ∧ id = state.decls.size := by
  have callable : (state.label mark name).callable = state.callable.map fun callable =>
    { callable with labels := callable.labels.insert name.text state.decls.size } := rfl
  rw [State.labels, callable] at found
  rw [State.labels]
  cases current : state.callable with
  | none =>
    rw [current] at found
    exact .inl found
  | some known =>
    rw [current] at found
    change (known.labels.insert name.text state.decls.size).get? other = some id at found
    exact (NameMap.get?_insert_cases found).symm.imp_right fun new => ⟨new.1.symm, new.2.symm⟩

theorem jumps_label (state : State) (mark : Span) (name : Token) : (state.label mark name).jumps = state.jumps := by
  change ((state.callable.map _).map Callable.jumps).getD [] = (state.callable.map Callable.jumps).getD []
  cases state.callable <;> rfl

theorem labels_jump (state : State) (name : Token) : (state.jump name).labels = state.labels := by
  change ((state.callable.map _).map Callable.labels).getD ∅ = (state.callable.map Callable.labels).getD ∅
  cases state.callable <;> rfl

theorem mem_jumps_jump {state : State} {name : Token} {jump : Jump} (found : jump ∈ (state.jump name).jumps) :
    jump ∈ state.jumps ∨ jump = ⟨name.text, name.span, state.refs.size⟩ := by
  have callable : (state.jump name).callable = state.callable.map fun callable =>
    { callable with jumps := callable.jumps ++ [⟨name.text, name.span, state.refs.size⟩] } := rfl
  rw [State.jumps, callable] at found
  rw [State.jumps]
  cases current : state.callable with
  | none =>
    rw [current] at found
    exact .inl found
  | some =>
    rw [current] at found
    exact (mem_append.mp found).imp_right mem_singleton.mp

/-- The labels and jumps of a body lie where it is read. -/
theorem Body.jumping (body : Body env used before after) (sound : Sound env all stop pending before)
    (jumping : Jumping floor before) : Jumping floor after := by
  induction body with
  | walk walk => exact jumping.pass sound.placed walk.toPass
  | trans first _ ihFirst ihSecond => exact ihSecond (first.sustains pending sound).1 (ihFirst sound jumping)
  | @declare _ _ _ middle _ _ _ _ _ _ front typed ident value =>
    have whole := (walk_two front typed ident).trans value
    have read := jumping.pass sound.placed whole.toPass
    exact read.mono (Nat.le_refl _) rfl (keeps_addDecl middle _) fun _ _ found => found
  | @label rest _ mark name front plain ident =>
    have whole := walk_two front plain ident
    have read := jumping.pass sound.placed whole.toPass
    obtain ⟨starts, _, reachedMark⟩ := sound.placed.passes (.pass whole.toPass) (show mark ∈ [mark, name] by simp)
    obtain ⟨startsName, _, reached⟩ := sound.placed.passes (.pass whole.toPass) (show name ∈ [mark, name] by simp)
    refine ⟨read.le, fun {other id} found => ?_, fun jump found => ?_⟩
    · rcases get?_labels_label found with old | ⟨rfl, rfl⟩
      · obtain ⟨decl, there, rest⟩ := read.labels old
        exact ⟨decl, keeps_addDecl _ _ id decl there, rest⟩
      · refine ⟨_, getElem?_addDecl_size .., rfl, rfl, ⟨Nat.min_le_right .., Nat.le_max_right ..⟩, ?_, ?_⟩
        · have le := jumping.le
          exact Nat.le_min.mpr ⟨Nat.le_trans le starts, Nat.le_trans le startsName⟩
        · exact Nat.max_le.mpr ⟨reachedMark, reached⟩
    · rw [jumps_label] at found
      exact read.jumps jump found
  | @jump _ _ keyword name front plain ident =>
    have whole := walk_two front plain ident
    have read := jumping.pass sound.placed (walk_unresolved front plain ident).toPass
    obtain ⟨starts, _, reached⟩ := sound.placed.passes (.pass whole.toPass) (show name ∈ [keyword, name] by simp)
    refine ⟨read.le, fun {other id} found => ?_, fun jump found => ?_⟩
    · rw [labels_jump] at found
      exact read.labels found
    · rcases mem_jumps_jump found with old | rfl
      · exact read.jumps jump old
      · refine ⟨⟨name.text, name.span, .unresolved⟩, Array.getElem?_push_size, rfl, ?_, reached⟩
        exact Nat.le_trans jumping.le starts
  | @block _ _ _ middle _ front _ inner _ ih =>
    obtain ⟨entered, _⟩ := Sustains.enter .block front pending sound
    have inside := ih entered (jumping.enter sound.placed .block front)
    exact (inside.pass (inner.sustains pending entered).1.placed (.take middle 1)).leave _
  | loop front _ _ ih =>
    obtain ⟨entered, _⟩ := Sustains.enter .forHeader front pending sound
    exact (ih entered (jumping.enter sound.placed .forHeader front)).leave _

end Statements

/-! ## Callables -/

/-- The name of a callable was read. What was declared in advance for it can be written again as the callable. -/
structure Heads (env : Env) (all : List Token) (stop : Nat) (kind : DeclKind) (name : Token)
    (state : State) : Prop where
  callable : IsCallable kind
  sketched : Sketched env all state name
  holds : state.arena.Holds state.prevEnd stop state.arena.current name.span
  passed : name.span.start < state.prevEnd
  precedes : state.arena.current ≠ Arena.globalScope → ∀ ref ∈ state.refs.toList, ∀ id, MeansValue state ref id →
    ref.span.stop ≤ name.span.start
  fits : ∀ old, Sketch env all name old → old.kind = .func ∧
    (kind = .func ∧ state.arena.current = Arena.globalScope ∨
      kind = .event ∧ 0 < braceDepth 0 (all.takeWhile fun token => token.span.start < name.span.start))

section Callables

variable {env : Env} {all used : List Token} {stop : Nat} {pending : Option Span} {kind : DeclKind} {returns : SemType}
  {name : Token} {start id : Nat} {before after : State}

theorem IsCallable.notLocal (callable : IsCallable kind) : ¬IsLocal kind := by
  rcases callable with rfl | rfl <;> (rw [IsLocal]; decide)

/-- What was declared in advance for a callable's name is written again as the callable. -/
theorem Heads.refits (heads : Heads env all stop kind name before) {old : Decl} (numbered : old.id = id)
    (sketch : Sketch env all name old) (params : List Param) (last : Nat) :
    Refits env all old (headerDecl id name.text kind returns params name.span start last before.arena.current) := by
  obtain ⟨isFunction, place⟩ := heads.fits old sketch
  have scanned : env.definitions.events.contains name.text = false ∧ Scanned all name.span := by
    rcases sketch.kind with ⟨_, scanned⟩ | ⟨isState, _⟩
    · exact scanned
    · rw [isFunction] at isState
      cases isState
  refine ⟨numbered.symm, sketch.name.symm, sketch.span.symm, ?_, ?_, ?_, ?_⟩
  · rw [isFunction]
    exact IsCallable.notLocal (.inl rfl)
  · rcases place with ⟨rfl, global⟩ | ⟨rfl, inside⟩
    · exact .inl ⟨isFunction.symm, global.trans sketch.scope.symm⟩
    · exact .inr ⟨isFunction, sketch.scope, rfl, scanned.1, scanned.2, inside⟩
  · rw [sketch.fullSpan]
    exact Nat.min_le_right ..
  · rw [sketch.fullSpan]
    exact Nat.le_max_right ..

theorem refits_header (callable : IsCallable kind) (scope : Nat) (params : List Param) (last : Nat) :
    Refits env all (headerDecl id name.text kind returns [] name.span start name.span.stop scope)
      (headerDecl id name.text kind returns params name.span start last scope) where
  id := rfl
  name := rfl
  span := rfl
  notLocal := callable.notLocal
  kind := .inl ⟨rfl, rfl⟩
  covers := ⟨Nat.le_refl _, Nat.max_le.mpr ⟨Nat.le_max_right .., Nat.le_max_right ..⟩⟩

/-- The declaration that a callable takes is there, and can be written again. -/
theorem Slot.fills (slot : Slot kind returns name start before id after) (sound : Sound env all stop pending before)
    (heads : Heads env all stop kind name before) :
    Sound env all stop pending after ∧ Grows stop before after ∧ ∃ old, after.decls[id]? = some old ∧
      old.span = name.span ∧ ∀ params last,
        Refits env all old (headerDecl id name.text kind returns params name.span start last before.arena.current) := by
  -- A new declaration has the header's form already.
  have added := sound.addDecl (headerDecl before.decls.size name.text kind returns [] name.span start name.span.stop
    before.arena.current) rfl heads.holds fun isLocal => absurd isLocal heads.callable.notLocal
  cases slot with
  | known found =>
    obtain ⟨old, there, sketch⟩ := heads.sketched id found
    obtain ⟨same, grows⟩ := Sustains.refl before pending sound
    exact ⟨same, grows, old, there, sketch.span, heads.refits (sound.consistent.ids there) sketch⟩
  | fresh _ made =>
    obtain ⟨soundAfter, grows⟩ := Sustains.pass made pending added.1
    exact ⟨soundAfter, added.2.trans grows, _, grows.keeps _ _ (getElem?_addDecl_size ..), rfl,
      refits_header heads.callable _⟩
  | bound _ isEvent =>
    have notLabel : kind ≠ .label := by rw [isEvent]; decide
    obtain ⟨soundAfter, grows⟩ := added.1.bind (getElem?_addDecl_size ..) rfl notLabel rfl
      fun inside ref found id means =>
      .behind (.inr (.inr isEvent)) (heads.precedes inside ref found id (means.of_addDecl sound.resolves found))
    exact ⟨soundAfter, added.2.trans grows, _, grows.keeps _ _ (getElem?_addDecl_size ..), rfl,
      refits_header heads.callable _⟩

/-- The end of a callable was read, and its jumps have their labels. -/
theorem Sound.resolve {floor : Nat} {callable : Option Callable} (sound : Sound env all stop none before)
    (jumping : Jumping floor before) (resolved : Resolved before.labels before.jumps (before.within callable) after) :
    Sound env all stop (some ⟨floor, before.prevEnd⟩) after ∧ Grows stop before after := by
  obtain ⟨⟨placed, consistent, awaiting, _, _⟩, _⟩ := Sustains.within callable before none sound
  have prototypes : after.prototypes = before.prototypes := congrArg Declared.prototypes resolved.declared
  have placedAfter : Placed env.length stop after := by
    constructor <;> simp only [resolved.rest, resolved.prevEnd, resolved.arena, resolved.decls]
    · exact placed.ordered
    · exact placed.laminar
    · exact placed.decls
    · exact placed.locals
  have grows : Grows stop before after := by
    refine ⟨.of_eq resolved.decls, fun held => ?_⟩
    rw [resolved.arena, resolved.prevEnd]
    exact held
  refine ⟨⟨placedAfter, consistent.of_declared resolved.declared, ?_, sound.resolves.resolve jumping resolved,
    sound.watched.resolve jumping resolved⟩, grows⟩
  exact awaiting.mono (resolved.rest ▸ Subset.refl _) prototypes grows.keeps

/-- The declarations of names in front of an offset stay as they are, and so do those of variables, parameters and
labels. -/
def KeepsBefore (offset : Nat) (before after : State) : Prop :=
  ∀ (id : Nat) (decl : Decl), before.decls[id]? = some decl → decl.span.start < offset ∨ IsLocal decl.kind →
    after.decls[id]? = some decl

namespace KeepsBefore

variable {offset : Nat} {middle : State}

theorem of_keeps (keeps : Keeps before after) : KeepsBefore offset before after :=
  fun id decl found _ => keeps id decl found

theorem trans (first : KeepsBefore offset before middle) (second : KeepsBefore offset middle after) :
    KeepsBefore offset before after :=
  fun id decl found early => second id decl (first id decl found early) early

theorem mono (keeps : KeepsBefore offset before after) {earlier : Nat} (le : earlier ≤ offset) :
    KeepsBefore earlier before after :=
  fun id decl found early => keeps id decl found (early.imp_left fun lt => Nat.lt_of_lt_of_le lt le)

theorem setDecl (keeps : KeepsBefore offset before after) {old : Decl} {change : Decl → Decl}
    (there : after.decls[id]? = some old) (later : offset ≤ old.span.start) (notLocal : ¬IsLocal old.kind) :
    KeepsBefore offset before (after.setDecl id change) := by
  intro other decl found early
  have kept := keeps other decl found early
  rw [getElem?_setDecl, if_neg, kept]
  rintro rfl
  obtain rfl := Option.mem_unique kept there
  rcases early with earlier | isLocal
  · exact Nat.lt_irrefl _ (Nat.lt_of_lt_of_le earlier later)
  · exact notLocal isLocal

end KeepsBefore

/-- The declaration of a callable is written again once the callable was read. -/
theorem Heads.rewrites (heads : Heads env all stop kind name before) {last : State} {old : Decl} {params : List Param}
    {finish : Nat} (sound : Sound env all stop pending last) (grows : Grows stop before last)
    (reached : before.prevEnd ≤ last.prevEnd) (there : last.decls[id]? = some old) (span : old.span = name.span)
    (refits : Refits env all old
      (headerDecl id name.text kind returns params name.span start finish before.arena.current))
    (covers : ∀ span, pending = some span → name.span.start ≤ span.start ∧ span.stop ≤ finish) :
    let written := last.setDecl id fun _ =>
      headerDecl id name.text kind returns params name.span start finish before.arena.current
    Sound env all stop none written ∧ KeepsBefore name.span.start before written := by
  refine ⟨sound.setDecl there refits (grows.holds heads.holds) (fun token isLeft => ?_) fun other isPending => ?_,
    (KeepsBefore.of_keeps grows.keeps).setDecl there (Nat.le_of_eq (by rw [span])) refits.notLocal⟩
  · have behind := (sound.placed.ordered.inside token isLeft).1
    have passed := heads.passed
    rw [span]
    omega
  · obtain ⟨starts, ends⟩ := covers other isPending
    exact ⟨heads.callable, Nat.le_trans (Nat.min_le_right ..) starts, Nat.le_trans ends (Nat.le_max_left ..)⟩

/-- A callable that begins has no labels and no jumps. -/
theorem jumping_within {callable : Callable} (labels : callable.labels = ∅)
    (jumps : callable.jumps = []) (state : State) : Jumping state.prevEnd (state.within (some callable)) := by
  refine ⟨Nat.le_refl _, fun {name id} found => ?_, fun jump found => ?_⟩
  · change callable.labels.get? name = some id at found
    rw [labels] at found
    cases found
  · change jump ∈ callable.jumps at found
    rw [jumps] at found
    cases found

/-- Behind the header of a callable its body is read, its jumps are given their labels, and the scope of its parameters
is left. -/
theorem Sound.callableBody {chosen headed middle resolved last : State} {inHeader inside behind rest : List Token}
    {paren opening : Token} {callable : Callable} (sound : Sound env all stop none chosen)
    (frontHeader : chosen.rest = paren :: behind) (read : Body env inHeader (chosen.enter env .params) headed)
    (front : headed.rest = opening :: rest) (fresh : callable.labels = ∅ ∧ callable.jumps = [])
    (inner : Body env inside ((headed.within (some callable)).enter env .block) middle)
    (jumps : Resolved middle.labels middle.jumps
      (((middle.advance 1).leave headed.arena.scopes.size).within headed.callable) resolved)
    (reported : Pass [] resolved last) :
    Sound env all stop (some ⟨headed.prevEnd, (middle.advance 1).prevEnd⟩) (last.leave chosen.arena.scopes.size) ∧
      Grows stop chosen (last.leave chosen.arena.scopes.size) := by
  obtain ⟨soundHeaded, growsHeaded⟩ := (Sustains.enter .params frontHeader).trans read.sustains none sound
  obtain ⟨soundWithin, growsWithin⟩ := Sustains.within (some callable) headed none soundHeaded
  have frontWithin : (headed.within (some callable)).rest = opening :: rest := front
  obtain ⟨soundEntered, growsEntered⟩ := Sustains.enter .block frontWithin none soundWithin
  obtain ⟨soundMiddle, growsMiddle⟩ := inner.sustains none soundEntered
  obtain ⟨soundDone, growsDone⟩ :=
    (Sustains.pass (.take middle 1)).trans (.leave headed.arena.scopes.size _) none soundMiddle
  have begun := (jumping_within fresh.1 fresh.2 headed).enter soundWithin.placed .block frontWithin
  have done := (inner.jumping soundEntered begun).pass soundMiddle.placed (.take middle 1)
  obtain ⟨soundResolved, growsResolved⟩ := soundDone.resolve (done.leave headed.arena.scopes.size) jumps
  obtain ⟨soundLast, growsLast⟩ :=
    (Sustains.pass reported).trans (.leave chosen.arena.scopes.size last) _ soundResolved
  exact ⟨soundLast, growsHeaded.trans (growsWithin.trans (growsEntered.trans (growsMiddle.trans (growsDone.trans
    (growsResolved.trans growsLast)))))⟩

theorem CallableRun.sound (run : CallableRun env kind returns name start used before after)
    (sound : Sound env all stop none before) (heads : Heads env all stop kind name before) :
    Sound env all stop none after ∧ KeepsBefore name.span.start before after := by
  have le := sound.placed.le_prevEnd run.extends
  cases run with
  | @body _ _ _ before headed _ _ _ id _ params _ _ header front _ fresh inner _ jumps reported =>
      cases header with
      | mk slot frontHeader _ read =>
        obtain ⟨soundChosen, growsChosen, old, there, span, refits⟩ := slot.fills sound heads
        obtain ⟨soundLeft, grows⟩ := soundChosen.callableBody frontHeader read front fresh inner jumps reported
        have prevEnd := Eq.trans reported.prevEnd jumps.prevEnd
        have headedLe := sound.placed.le_prevEnd (slot.extends.trans (read.extends.leave frontHeader))
        refine heads.rewrites soundLeft (growsChosen.trans grows) le (grows.keeps id old there) span
          (refits params _) ?_
        intro other isPending
        obtain rfl := Option.some.inj isPending
        have passed := heads.passed
        exact ⟨Nat.le_trans (Nat.le_of_lt passed) headedLe, Nat.le_of_eq prevEnd.symm⟩
  | @missing _ _ _ headed last id _ params header skipped =>
    cases header with
    | @mk _ _ _ chosen _ _ _ _ slot frontHeader _ read =>
      obtain ⟨soundChosen, growsChosen, old, there, span, refits⟩ := slot.fills sound heads
      have onward : Sustains env all stop chosen last := (Sustains.enter .params frontHeader).trans
        (read.sustains.trans ((Sustains.leave chosen.arena.scopes.size headed).trans (.pass skipped.toPass)))
      obtain ⟨soundLast, grows⟩ := onward none soundChosen
      exact heads.rewrites soundLast (growsChosen.trans grows) le (grows.keeps id old there) span
        (refits params _) nofun

end Callables

end ScriptLint.Analysis
