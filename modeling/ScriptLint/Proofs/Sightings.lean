import ScriptLint.Proofs.References

/-!
# Where a name was looked up

A reference to a variable is resolved in the scopes that are open where it stands. When the document was read, those
scopes may have more names than they had then. What is remembered of a reference is which scopes were open, that every
other scope was closed in front of it or opened behind it, and how a name that was found further out can have been
declared further in since: behind the reference, or by a variable whose value holds the reference.
-/

namespace ScriptLint

open List

/-! ## How the scopes of an arena move -/

namespace Arena

/-- Scopes keep their parents, where they start and, once they are closed, where they end. Names stay declared. What is
new starts behind an offset. -/
structure Moves (now : Nat) (before after : Arena) : Prop where
  parents : ∀ {outer id}, IsParent before.scopes outer id → IsParent after.scopes outer id
  names : ∀ {scope name id}, before.named? scope name = some id →
    after.named? scope name = some id
  scopes : ∀ {id scope}, after.scopes[id]? = some scope →
    before.scopes[id]? = none ∧ now ≤ scope.span.start ∨
      ∃ old, before.scopes[id]? = some old ∧ scope.span.start = old.span.start ∧
        (id ∉ before.opened → id ∉ after.opened ∧ scope.span.stop = old.span.stop)

namespace Moves

variable {now start stop length : Nat} {kind : ScopeKind} {before middle after arena : Arena}

theorem refl (arena : Arena) : Moves now arena arena :=
  ⟨fun parent => parent, fun found => found, fun found => .inr ⟨_, found, rfl, fun notOpen => ⟨notOpen, rfl⟩⟩⟩

/-- Scopes are changed further, but nothing is opened, and what is closed keeps its end. -/
theorem revise {change : Nat → Scope → Scope} (moves : Moves now before middle)
    (revision : Revision middle.scopes after.scopes change)
    (names : ∀ {scope name id}, middle.named? scope name = some id → after.named? scope name = some id)
    (opened : ∀ id ∈ after.opened, id ∈ middle.opened)
    (stops : ∀ id scope, id ∉ middle.opened → (change id scope).span.stop = scope.span.stop) :
    Moves now before after where
  parents parent := revision.isParent (moves.parents parent)
  names found := names (moves.names found)
  scopes found := by
    obtain ⟨scope, there, rfl⟩ := revision.exists_old found
    rw [(revision.keeps _ scope).2.2.2]
    refine (moves.scopes there).imp_right fun ⟨old, thereOld, starts, kept⟩ =>
      ⟨old, thereOld, starts, fun notOpen => ?_⟩
    obtain ⟨closed, sameStop⟩ := kept notOpen
    exact ⟨fun isOpen => closed (opened _ isOpen), (stops _ scope closed).trans sameStop⟩

theorem push (starts : now ≤ start) : Moves now arena (arena.push kind start length) where
  parents := isParent_push
  names found := named?_push.trans found
  scopes found := by
    rcases push_cases found with ⟨rfl, rfl⟩ | ⟨lt, there⟩
    · exact .inl ⟨Array.getElem?_eq_none (Nat.le_refl _), starts⟩
    · refine .inr ⟨_, there, rfl, fun notOpen => ⟨?_, rfl⟩⟩
      rwa [mem_opened_push lt]

theorem pop (moves : Moves now before arena) : Moves now before (arena.pop stop) := by
  refine pop_induction (Moves now before) moves fun id outer rest opened => ?_
  refine moves.revise (revision_close arena id stop) (fun found => named?_close.trans found) (fun other found => ?_)
    fun other scope notOpen => ?_
  · rw [opened]
    exact mem_cons_of_mem id found
  · have different : id ≠ other := fun same => notOpen (same ▸ opened ▸ mem_cons_self)
    rw [stop_endAt, if_neg different]

theorem popTo (arena : Arena) (id stop : Nat) : Moves now arena (arena.popTo id stop) :=
  popTo_induction (Moves now arena) (fun _ moves => moves.pop) (refl arena) id

theorem declare (arena : Arena) (scope : Nat) (name : String) (decl : Nat) :
    Moves now arena (arena.declare scope name decl) :=
  (refl arena).revise (revision_declare arena scope name decl) named?_declare_of_named (fun _ found => found)
    fun _ _ _ => by rw [span_naming]

end Moves

end Arena

/-- What is further out is a stack of its own. -/
theorem Stack.of_append {scopes : Array Scope} {front rest : List Nat} {id : Nat}
    (stack : Stack scopes (front ++ id :: rest)) : Stack scopes (id :: rest) := by
  induction front with
  | nil => exact stack
  | cons _ front ih =>
    refine ih ?_
    cases front with
    | nil => exact stack.tail
    | cons => exact stack.tail

/-- A scope inside another one is not the global scope. -/
theorem Stack.ne_global {scopes : Array Scope} {inner rest : List Nat} {outer id : Nat}
    (stack : Stack scopes (inner ++ outer :: rest)) (found : id ∈ inner) : id ≠ Arena.globalScope := by
  obtain ⟨front, behind, rfl⟩ := append_of_mem found
  rw [append_assoc] at stack
  exact Nat.ne_of_gt (Nat.zero_lt_of_lt (stack.of_append.lt outer (by simp)))

namespace Analysis

/-! ## Sightings -/

/-- How a name that a reference does not mean can have been declared: behind the reference, or by a variable whose value
holds the reference. -/
inductive Late (ref : Ref) (decl : Decl) : Prop where
  | behind (kind : decl.kind = .var ∨ decl.kind = .param ∨ decl.kind = .event) (le : ref.span.stop ≤ decl.span.start)
  | value (kind : decl.kind = .var) (starts : decl.span.stop ≤ ref.span.start)
      (ends : ref.span.stop ≤ decl.fullSpan.stop)

/-- The scopes that were open where a reference stands, innermost first. The name was found in one of them. The scopes
further in did not have it, so whatever they call so now was declared later. -/
structure Sighting (stop : Nat) (state : State) (ref : Ref) (id : Nat) (inner : List Nat) (outer : Nat)
    (rest : List Nat) : Prop where
  filled : ref.span.start < ref.span.stop
  passed : ref.span.stop ≤ state.prevEnd
  stack : Stack state.arena.scopes (inner ++ outer :: rest)
  named : state.arena.named? outer ref.name = some id
  late : ∀ scope ∈ inner, ∀ other, state.arena.named? scope ref.name = some other →
    ∃ decl, state.decls[other]? = some decl ∧ Late ref decl
  holds : ∀ scope ∈ inner ++ outer :: rest, state.arena.Holds state.prevEnd stop scope ref.span
  starts : ∀ number ∈ inner ++ outer :: rest, number ≠ Arena.globalScope →
    ∀ scope, state.arena.scopes[number]? = some scope → scope.span.start < ref.span.start
  apart : ∀ {number scope}, state.arena.scopes[number]? = some scope →
    number ∈ inner ++ outer :: rest ∨ (number ∉ state.arena.opened ∧ scope.span.stop ≤ ref.span.start) ∨
      ref.span.stop ≤ scope.span.start

/-- A reference means a variable or a parameter. -/
def MeansValue (state : State) (ref : Ref) (id : Nat) : Prop :=
  ref.target = .decl id ∧ ∃ decl, state.decls[id]? = some decl ∧ (decl.kind = .var ∨ decl.kind = .param)

/-- Every reference to a variable or a parameter is remembered. Scopes start in front of what was read last, and names
are not empty. -/
structure Watched (stop : Nat) (state : State) : Prop where
  entered : ∀ {id : Nat} {scope : Scope}, id ∈ state.arena.opened → id ≠ Arena.globalScope →
    state.arena.scopes[id]? = some scope → scope.span.start < state.prevEnd
  filled : ∀ {id : Nat} {decl : Decl}, state.decls[id]? = some decl → IsLocal decl.kind →
    decl.span.start ≤ decl.span.stop
  sighted : ∀ ref ∈ state.refs.toList, ∀ id, MeansValue state ref id →
    ∃ inner outer rest, Sighting stop state ref id inner outer rest

section Steps

variable {env : Env} {pending : Option Span} {stop id outer : Nat} {ref : Ref} {inner rest : List Nat}
  {all used : List Token} {before after state : State}

/-- A sighting stays one when scopes move, if what is declared further in is declared late. -/
theorem Sighting.mono (sighting : Sighting stop before ref id inner outer rest) (le : before.prevEnd ≤ after.prevEnd)
    (moves : Arena.Moves before.prevEnd before.arena after.arena)
    (holds : ∀ {id span}, before.arena.Holds before.prevEnd stop id span → after.arena.Holds after.prevEnd stop id span)
    (late : ∀ scope ∈ inner, ∀ other, after.arena.named? scope ref.name = some other →
      ∃ decl, after.decls[other]? = some decl ∧ Late ref decl) : Sighting stop after ref id inner outer rest where
  filled := sighting.filled
  passed := Nat.le_trans sighting.passed le
  stack := sighting.stack.mono moves.parents
  named := moves.names sighting.named
  late := late
  holds scope found := holds (sighting.holds scope found)
  starts number found other scope there := by
    obtain ⟨known, thereKnown, _⟩ := sighting.holds number found
    rcases moves.scopes there with ⟨absent, _⟩ | ⟨old, thereOld, sameStart, _⟩
    · rw [thereKnown] at absent
      cases absent
    · rw [sameStart]
      exact sighting.starts number found other old thereOld
  apart there := by
    rcases moves.scopes there with ⟨_, behind⟩ | ⟨old, thereOld, sameStart, kept⟩
    · exact .inr (.inr (Nat.le_trans sighting.passed behind))
    · rcases sighting.apart thereOld with wasOpen | ⟨closed, ends⟩ | begins
      · exact .inl wasOpen
      · obtain ⟨stillClosed, sameStop⟩ := kept closed
        exact .inr (.inl ⟨stillClosed, by rw [sameStop]; exact ends⟩)
      · exact .inr (.inr (by rw [sameStart]; exact begins))

/-- Scopes are opened and closed, but nothing is declared and nothing referred to. -/
theorem Watched.move (watched : Watched stop before) (decls : after.decls = before.decls)
    (refs : after.refs = before.refs)
    (le : before.prevEnd ≤ after.prevEnd) (moves : Arena.Moves before.prevEnd before.arena after.arena)
    (names : ∀ scope name, after.arena.named? scope name = before.arena.named? scope name)
    (holds : ∀ {id span}, before.arena.Holds before.prevEnd stop id span → after.arena.Holds after.prevEnd stop id span)
    (entered : ∀ {id scope}, id ∈ after.arena.opened → id ≠ Arena.globalScope → after.arena.scopes[id]? = some scope →
      scope.span.start < after.prevEnd) : Watched stop after := by
  refine ⟨entered, fun found => ?_, fun ref found id means => ?_⟩
  · rw [decls] at found
    exact watched.filled found
  · rw [refs] at found
    rw [MeansValue, decls] at means
    obtain ⟨inner, outer, rest, sighting⟩ := watched.sighted ref found id means
    refine ⟨inner, outer, rest, sighting.mono le moves holds fun scope isInner other named => ?_⟩
    rw [names] at named
    rw [decls]
    exact sighting.late scope isInner other named

theorem Watched.same (watched : Watched stop before) (decls : after.decls = before.decls)
    (refs : after.refs = before.refs)
    (prevEnd : after.prevEnd = before.prevEnd) (arena : after.arena = before.arena) : Watched stop after := by
  refine watched.move decls refs (Nat.le_of_eq prevEnd.symm) (arena ▸ .refl _) (fun _ _ => by rw [arena])
    (fun held => ?_) ?_
  · rwa [arena, prevEnd]
  · rw [arena, prevEnd]
    exact watched.entered

section

variable (watched : Watched stop state)

include watched

theorem Watched.enter (placed : Placed env.length stop state) (kind : ScopeKind)
    {token : Token} {behind : List Token} (front : state.rest = token :: behind) :
    Watched stop (state.enter env kind) := by
  have ordered := placed.ordered
  rw [front] at ordered
  have starts := (ordered.inside token mem_cons_self).1
  have filled := ordered.filled token mem_cons_self
  have place : state.place.start = token.span.start := by rw [State.place, front]; rfl
  have prevEnd : (state.enter env kind).prevEnd = token.span.stop := by
    have passed := (Pass.one front).prevEnd
    exact passed
  have le : state.prevEnd ≤ token.span.stop := by omega
  refine watched.move rfl rfl (by rw [prevEnd]; exact le) (.push (by rw [place]; exact starts))
    (fun _ _ => Arena.named?_push) (fun held => held.push.mono (by rw [prevEnd]; exact le))
    fun {id scope} isOpen other there => ?_
  rw [prevEnd]
  rcases Arena.push_cases there with ⟨rfl, rfl⟩ | ⟨lt, there⟩
  · change state.place.start < _
    rw [place]
    exact filled
  · exact Nat.lt_of_lt_of_le (watched.entered ((Arena.mem_opened_push lt).mp isOpen) other there) le

/-- Scopes that are closed are no longer open, and start where they did. -/
theorem Watched.entered_of_moves {arena : Arena} {now : Nat}
    (moves : Arena.Moves now state.arena arena) (size : arena.scopes.size = state.arena.scopes.size)
    {scope : Scope} (isOpen : id ∈ arena.opened) (other : id ≠ Arena.globalScope)
    (there : arena.scopes[id]? = some scope) :
    scope.span.start < state.prevEnd := by
  have lt : id < state.arena.scopes.size := size ▸ (Array.getElem?_eq_some_iff.mp there).1
  rcases moves.scopes there with ⟨absent, _⟩ | ⟨old, thereOld, sameStart, kept⟩
  · rw [Array.getElem?_eq_getElem lt] at absent
    cases absent
  · rw [sameStart]
    refine watched.entered ?_ other thereOld
    by_cases wasOpen : id ∈ state.arena.opened
    · exact wasOpen
    · exact absurd isOpen (kept wasOpen).1

theorem Watched.leave (laminar : state.arena.Laminar env.length state.prevEnd)
    (scope : Nat) : Watched stop (state.leave scope) :=
  watched.move rfl rfl (Nat.le_refl _) (.popTo ..) (fun _ _ => Arena.named?_popTo)
    (fun held => held.popTo laminar scope)
    (watched.entered_of_moves (@Arena.Moves.popTo 0 ..) Arena.size_popTo)

theorem Watched.close (laminar : state.arena.Laminar env.length state.prevEnd) : Watched stop state.close :=
  watched.move rfl rfl (Nat.le_refl _) (.pop (.refl _)) (fun _ _ => Arena.named?_pop) (fun held => held.pop laminar)
    (watched.entered_of_moves (.pop (@Arena.Moves.refl 0 _)) Arena.size_pop)

end

/-! ## Passing over tokens -/

variable {decl : Decl}

/-- A name that leads to a variable or a parameter was looked up in the open scopes. -/
theorem Consistent.lookup_eq (consistent : Consistent env all state) {name : String}
    (finds : state.declared.Finds name id) (there : state.decls[id]? = some decl)
    (isValue : decl.kind = .var ∨ decl.kind = .param) : state.arena.lookup name = some id := by
  rcases finds with found | ⟨known, found, same⟩ | found
  · exact found
  · obtain ⟨number, listed, thereKnown⟩ := Option.bind_eq_some_iff.mp found
    obtain ⟨function, thereFunction, _, kind⟩ := consistent.functions listed
    have numbered := (consistent.ids thereKnown).symm.trans same
    obtain rfl := Option.some.inj ((numbered ▸ thereFunction).symm.trans there)
    rcases kind.imp_right Astray.kind with kind | kind <;> rw [kind] at isValue <;> simp at isValue
  · obtain ⟨known, thereKnown, _, kind⟩ := consistent.states found
    obtain rfl := Option.mem_unique thereKnown there
    rw [kind] at isValue
    simp at isValue

/-- A reference that was just recorded is remembered. -/
theorem Watched.sight (watched : Watched stop before) (placed : Placed env.length stop before)
    (consistent : Consistent env all before) (pass : Pass used before after)
    (mention : Mention before.declared used ref) (means : MeansValue before ref id) :
    ∃ inner outer rest, Sighting stop after ref id inner outer rest := by
  obtain ⟨target, decl, there, isValue⟩ := means
  have found := consistent.lookup_eq (mention.found id target) there isValue
  obtain ⟨inner, outer, rest, opened, named, without⟩ := Arena.split_of_lookup placed.laminar found
  obtain ⟨token, passed, _, span⟩ := mention.stands
  obtain ⟨starts, filled, ends⟩ := placed.passes (.pass pass) passed
  rw [← span] at filled starts ends
  refine ⟨inner, outer, rest, filled, ends, ?_, ?_, fun scope isInner other named => ?_, fun scope isOpen => ?_,
    fun number isOpen other scope there => ?_, fun {number scope} there => ?_⟩
  · rw [pass.arena, ← opened]
    exact placed.laminar.stack
  · rw [pass.arena]
    exact named
  · rw [pass.arena, without scope isInner] at named
    cases named
  · rw [← opened] at isOpen
    rw [pass.arena]
    exact placed.laminar.holds_opened isOpen starts ends (placed.pass pass).ordered.le
  · rw [← opened] at isOpen
    rw [pass.arena] at there
    exact Nat.lt_of_lt_of_le (watched.entered isOpen other there) starts
  · rw [pass.arena] at there ⊢
    rw [← opened]
    by_cases isOpen : number ∈ before.arena.opened
    · exact .inl isOpen
    · exact .inr (.inl ⟨isOpen, Nat.le_trans (placed.laminar.closed isOpen there).2 starts⟩)

theorem Watched.pass (watched : Watched stop before) (placed : Placed env.length stop before)
    (consistent : Consistent env all before) (pass : Pass used before after) : Watched stop after := by
  have le := placed.le_prevEnd (.pass pass)
  obtain ⟨more, refs, mentions⟩ := pass.refs
  refine ⟨fun isOpen other there => ?_, fun found => ?_, fun ref found id means => ?_⟩
  · rw [pass.arena] at isOpen there
    exact Nat.lt_of_lt_of_le (watched.entered isOpen other there) le
  · rw [pass.decls] at found
    exact watched.filled found
  · rw [MeansValue, pass.decls] at means
    rw [refs] at found
    rcases mem_append.mp found with old | new
    · obtain ⟨inner, outer, rest, sighting⟩ := watched.sighted ref old id means
      refine ⟨inner, outer, rest, sighting.mono le (pass.arena ▸ .refl _) (fun held => ?_)
        fun scope isInner other named => ?_⟩
      · rw [pass.arena]
        exact held.mono le
      · rw [pass.arena] at named
        rw [pass.decls]
        exact sighting.late scope isInner other named
    · exact watched.sight placed consistent pass (mentions ref new) means

/-! ## Declaring -/

theorem MeansValue.of_addDecl (means : MeansValue (state.addDecl decl) ref id)
    (resolves : Resolves pending stop state) (found : ref ∈ state.refs.toList) : MeansValue state ref id := by
  obtain ⟨target, known, there, isValue⟩ := means
  obtain ⟨old, thereOld, _⟩ := resolves ref found id target
  obtain rfl := Option.some.inj ((keeps_addDecl state decl id old thereOld).symm.trans there)
  exact ⟨target, old, thereOld, isValue⟩

theorem Watched.addDecl (watched : Watched stop state) (resolves : Resolves pending stop state)
    (filled : IsLocal decl.kind → decl.span.start ≤ decl.span.stop) : Watched stop (state.addDecl decl) := by
  refine ⟨watched.entered, fun {id other} found isLocal => ?_, fun ref found id means => ?_⟩
  · rw [getElem?_addDecl] at found
    split at found
    · obtain rfl := Option.some.inj found
      exact filled isLocal
    · exact watched.filled found isLocal
  · obtain ⟨inner, outer, rest, sighting⟩ := watched.sighted ref found id (means.of_addDecl resolves found)
    refine ⟨inner, outer, rest, sighting.mono (Nat.le_refl _) (.refl _) (fun held => held)
      fun scope isInner other named => ?_⟩
    obtain ⟨known, there, late⟩ := sighting.late scope isInner other named
    exact ⟨known, keeps_addDecl state decl other known there, late⟩

/-- A name is bound in the innermost scope, behind the references or by a variable whose value holds them. -/
theorem Watched.bind (watched : Watched stop state) {name : String} {new : Nat}
    (there : state.decls[new]? = some decl)
    (late : state.arena.current ≠ Arena.globalScope → ∀ ref ∈ state.refs.toList, ∀ id, MeansValue state ref id →
      Late ref decl) : Watched stop (state.bind name new) := by
  have moves : Arena.Moves state.prevEnd state.arena (state.bind name new).arena := .declare ..
  refine ⟨watched.entered_of_moves moves Arena.size_declare, watched.filled, fun ref found id means => ?_⟩
  obtain ⟨inner, outer, rest, sighting⟩ := watched.sighted ref found id means
  refine ⟨inner, outer, rest, sighting.mono (Nat.le_refl _) moves (fun held => held.declare ..)
    fun scope isInner other named => ?_⟩
  rcases Arena.named?_declare named with old | ⟨rfl, _, rfl⟩
  · exact sighting.late scope isInner other old
  · exact ⟨decl, there, late (sighting.stack.ne_global isInner) ref found id means⟩

theorem Placed.prevEnd_le_place {length : Nat} (placed : Placed length stop state) :
    state.prevEnd ≤ state.place.stop := by
  have ordered := placed.ordered
  rw [State.place]
  cases front : state.rest with
  | nil => exact Nat.le_refl _
  | cons token =>
    rw [front] at ordered
    have starts := (ordered.inside token mem_cons_self).1
    have filled := ordered.filled token mem_cons_self
    change state.prevEnd ≤ token.span.stop
    omega

/-- A variable is declared behind its value. What was referred to before lies in front of its name, and what its value
refers to lies between the name and the end of the declaration. -/
theorem Watched.late_of_value {middle : State} {typeToken name : Token} {behind : List Token}
    (watched : Watched stop before) (placed : Placed env.length stop before)
    (isValue : decl.kind = .var ∨ decl.kind = .param)
    (front : before.rest = typeToken :: name :: behind) (typed : isBrace typeToken = false) (ident : name.isIdent)
    (value : Walk used (before.advance 2) middle) (span : decl.span = name.span)
    (reaches : used = [] ∨ decl.kind = .var ∧ middle.place.stop ≤ decl.fullSpan.stop) (found : ref ∈ middle.refs.toList)
    (means : MeansValue middle ref id) : Late ref decl := by
  have whole := (walk_two front typed ident).trans value
  have ordered := placed.ordered
  rw [whole.rest] at ordered
  have starts := (ordered.inside name (by simp)).1
  obtain ⟨more, refs, mentions⟩ := value.refs
  rw [refs] at found
  rcases mem_append.mp found with old | new
  · rw [MeansValue, whole.decls] at means
    obtain ⟨_, _, _, sighting⟩ := watched.sighted ref old id means
    exact .behind (isValue.imp_right .inl) (span ▸ Nat.le_trans sighting.passed starts)
  · obtain ⟨token, passed, _, stands⟩ := (mentions ref new).stands
    obtain ⟨isVar, reached⟩ := reaches.resolve_left (ne_nil_of_mem passed)
    have apart := (pairwise_cons.mp (pairwise_cons.mp ordered.apart).2).1 token (mem_append_left _ passed)
    have ends := (placed.passes (.pass whole.toPass) (mem_append_right _ passed)).2.2
    refine .value isVar (stands ▸ span ▸ apart) (stands ▸ ?_)
    exact Nat.le_trans (Nat.le_trans ends (placed.pass whole.toPass).prevEnd_le_place) reached

/-- A declaration that is written again keeps its name's place and does not get shorter. -/
theorem Refits.late {old new : Decl} (refits : Refits env all old new) (late : Late ref old) : Late ref new := by
  cases late with
  | behind kind le =>
    have isEvent : old.kind = .event := by
      rcases kind with isVar | isParam | isEvent
      · exact absurd (.inl isVar) refits.notLocal
      · exact absurd (.inr (.inl isParam)) refits.notLocal
      · exact isEvent
    refine .behind (.inr (.inr ?_)) (by rw [refits.span]; exact le)
    rcases refits.kind with ⟨same, _⟩ | ⟨_, _, astray⟩
    · exact same.trans isEvent
    · exact astray.kind
  | value kind => exact absurd (.inl kind) refits.notLocal

/-- A declaration is written again. What was declared late still is. -/
theorem Watched.setDecl (watched : Watched stop state) {old : Decl} {change : Decl → Decl}
    (there : state.decls[id]? = some old) (refits : Refits env all old (change old)) :
    Watched stop (state.setDecl id change) := by
  refine ⟨watched.entered, fun found isLocal => ?_, fun ref found target means => ?_⟩
  · rcases setDecl_cases there found with ⟨-, rfl⟩ | ⟨-, found⟩
    · exact absurd isLocal refits.notLocal_new
    · exact watched.filled found isLocal
  · obtain ⟨isTarget, decl, thereDecl, isValue⟩ := means
    rcases setDecl_cases there thereDecl with ⟨-, rfl⟩ | ⟨-, thereDecl⟩
    · exact absurd (isValue.imp_right .inl) refits.notLocal_new
    obtain ⟨inner, outer, rest, sighting⟩ := watched.sighted ref found target ⟨isTarget, decl, thereDecl, isValue⟩
    refine ⟨inner, outer, rest, sighting.mono (Nat.le_refl _) (.refl _) (fun held => held)
      fun scope isInner other named => ?_⟩
    exact exists_setDecl there refits.late (sighting.late scope isInner other named)

/-- When a callable ends, its jumps are given labels, which are no values. -/
theorem Watched.resolve {floor : Nat} {callable : Option Callable} (watched : Watched stop before)
    (jumping : Jumping floor before) (resolved : Resolved before.labels before.jumps (before.within callable) after) :
    Watched stop after := by
  have arena := resolved.arena
  have decls := resolved.decls
  have prevEnd := resolved.prevEnd
  refine ⟨?_, ?_, fun ref found id means => ?_⟩
  · rw [arena, prevEnd]
    exact watched.entered
  · rw [decls]
    exact watched.filled
  · rw [MeansValue, decls] at means
    obtain ⟨index, there⟩ := getElem?_of_mem found
    rw [Array.getElem?_toList] at there
    rcases resolved.refs there with same | ⟨jump, isJump, rfl, label, old, known, thereOld, rfl⟩
    · have member := Array.mem_toList_iff.mpr (Array.mem_of_getElem? same)
      obtain ⟨inner, outer, rest, sighting⟩ := watched.sighted ref member id means
      refine ⟨inner, outer, rest, sighting.mono (Nat.le_of_eq prevEnd.symm) (arena ▸ .refl _) (fun held => ?_)
        fun scope isInner other named => ?_⟩
      · rw [arena, prevEnd]
        exact held
      · rw [arena] at named
        rw [decls]
        exact sighting.late scope isInner other named
    · obtain ⟨target, decl, thereDecl, isValue⟩ := means
      obtain rfl : label = id := Target.decl.inj target
      obtain ⟨known, thereKnown, _, kind, _⟩ := jumping.labels known
      obtain rfl := Option.mem_unique thereKnown thereDecl
      rw [kind] at isValue
      simp at isValue

end Steps

end Analysis

end ScriptLint
