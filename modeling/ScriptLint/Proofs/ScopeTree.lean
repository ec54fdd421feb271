import Mathlib.Logic.Relation
import ScriptLint.Proofs.Items
import ScriptLint.Proofs.OpenScopes
import ScriptLint.Proofs.TokenOrder

/-!
# Scopes form a tree

Scopes are opened and closed where reading has come to, so they nest: a scope ends inside the one around it, and two
scopes of which neither is around the other follow one another.
-/

namespace ScriptLint

open List

/-- One scope is around another, at any distance. -/
def Around (scopes : Array Scope) : Nat → Nat → Prop := Relation.TransGen (IsParent scopes)

theorem Around.mono {scopes others : Array Scope} {outer id : Nat} (around : Around scopes outer id)
    (parents : ∀ {outer id}, IsParent scopes outer id → IsParent others outer id) : Around others outer id :=
  Relation.TransGen.mono (fun _ _ parent => parents parent) _ _ around

namespace Arena

variable {arena : Arena} {length now later start stop : Nat} {kind : ScopeKind}

/-- The scopes of an arena nest, as far as reading has come. The global scope spans the whole document. -/
structure Laminar (arena : Arena) (length now : Nat) : Prop extends arena.Coherent length where
  outer : ∀ {id scope}, arena.scopes[id]? = some scope → id ≠ globalScope → ∃ outer around,
    scope.parent = some outer ∧ outer < id ∧ arena.scopes[outer]? = some around ∧
      around.span.start ≤ scope.span.start ∧
      (outer ∉ arena.opened → id ∉ arena.opened ∧ scope.span.stop ≤ around.span.stop)
  opens : ∀ {id scope}, id ∈ arena.opened → arena.scopes[id]? = some scope → scope.span.start ≤ now
  closed : ∀ {id scope}, id ∉ arena.opened → arena.scopes[id]? = some scope →
    scope.span.start ≤ scope.span.stop ∧ scope.span.stop ≤ now
  apart : ∀ {id other scope later}, arena.scopes[id]? = some scope →
    arena.scopes[other]? = some later → id < other →
      Around arena.scopes id other ∨ id ∉ arena.opened ∧ scope.span.stop ≤ later.span.start

/-- An old scope is open if it was before. -/
theorem mem_opened_push {id : Nat} (old : id < arena.scopes.size) :
    id ∈ (arena.push kind start length).opened ↔ id ∈ arena.opened := by
  change id ∈ arena.scopes.size :: arena.opened ↔ _
  rw [mem_cons]
  exact or_iff_right (Nat.ne_of_lt old)

theorem laminar_new (length : Nat) : (new length).Laminar length 0 := by
  refine ⟨coherent_new length, fun found other => ?_, fun _ found => ?_, fun notOpen found => ?_,
    fun found foundOther lt => ?_⟩
  · exact absurd (eq_of_getElem?_new found).1 other
  · obtain ⟨rfl, rfl⟩ := eq_of_getElem?_new found
    exact Nat.le_refl 0
  · obtain ⟨rfl, rfl⟩ := eq_of_getElem?_new found
    exact absurd (mem_singleton_self _) notOpen
  · obtain ⟨rfl, rfl⟩ := eq_of_getElem?_new foundOther
    exact absurd lt (Nat.not_lt_zero _)

namespace Laminar

variable (laminar : arena.Laminar length now)

include laminar

theorem exists_current : ∃ scope, arena.scopes[arena.current]? = some scope :=
  ⟨_, Array.getElem?_eq_some_iff.mpr ⟨laminar.isOpen.lt _ laminar.current_mem, rfl⟩⟩

theorem mono (le : now ≤ later) : arena.Laminar length later where
  toCoherent := laminar.toCoherent
  outer := laminar.outer
  opens isOpen found := Nat.le_trans (laminar.opens isOpen found) le
  closed notOpen found := ⟨(laminar.closed notOpen found).1, Nat.le_trans (laminar.closed notOpen found).2 le⟩
  apart := laminar.apart

/-- A scope is opened behind all that was closed. -/
theorem push (le : now ≤ start) : (arena.push kind start length).Laminar length start := by
  obtain ⟨around, current⟩ := laminar.exists_current
  have earlier := laminar.isOpen.lt _ laminar.current_mem
  have pushed : (arena.push kind start length).Coherent length := laminar.toCoherent.push
  refine ⟨pushed, fun found other => ?_, fun isOpen found => ?_, fun notOpen found => ?_,
    fun {id other scope later} found foundOther lt => ?_⟩
  · rcases push_cases found with ⟨rfl, rfl⟩ | ⟨lt, found⟩
    · have isOpen : arena.current ∈ (arena.push kind start length).opened :=
        mem_cons_of_mem _ laminar.current_mem
      refine ⟨arena.current, around, rfl, earlier, there_push current, ?_, fun notOpen => absurd isOpen notOpen⟩
      exact Nat.le_trans (laminar.opens laminar.current_mem current) le
    · obtain ⟨outer, scope, parent, before, there, starts, ends⟩ := laminar.outer found other
      refine ⟨outer, scope, parent, before, there_push there, starts, fun notOpen => ?_⟩
      rw [mem_opened_push (Nat.lt_trans before lt)] at notOpen
      rw [mem_opened_push lt]
      exact ends notOpen
  · rcases push_cases found with ⟨rfl, rfl⟩ | ⟨lt, found⟩
    · exact Nat.le_refl start
    · exact Nat.le_trans (laminar.opens ((mem_opened_push lt).mp isOpen) found) le
  · rcases push_cases found with ⟨rfl, rfl⟩ | ⟨lt, found⟩
    · exact absurd mem_cons_self notOpen
    · rw [mem_opened_push lt] at notOpen
      exact ⟨(laminar.closed notOpen found).1, Nat.le_trans (laminar.closed notOpen found).2 le⟩
  · rcases push_cases foundOther with ⟨rfl, rfl⟩ | ⟨less, foundOther⟩
    · -- What is open is around the new scope, and the rest lies in front of it.
      have found := ((push_cases found).resolve_left fun new => Nat.ne_of_lt lt new.1).2
      rw [mem_opened_push lt]
      by_cases isOpen : id ∈ arena.opened
      · exact .inl (pushed.stack.forall_mem (fun parent _ => .single parent) Relation.TransGen.trans id isOpen)
      · exact .inr ⟨isOpen, Nat.le_trans (laminar.closed isOpen found).2 le⟩
    · have small := Nat.lt_trans lt less
      have found := ((push_cases found).resolve_left fun new => Nat.ne_of_lt small new.1).2
      rw [mem_opened_push small]
      exact (laminar.apart found foundOther lt).imp_left fun around => around.mono isParent_push

/-- The innermost scope is closed where reading has come to. -/
theorem pop : (arena.pop now).Laminar length now := by
  refine pop_induction (fun popped => popped.Coherent length → popped.Laminar length now) (fun _ => laminar)
    (fun id outer rest opened coherent => ?_) laminar.toCoherent.pop
  have revision := revision_close arena id now
  have stack := laminar.stack
  rw [opened] at stack
  have isOpen : id ∈ arena.opened := by rw [opened]; exact mem_cons_self
  -- What is still open was open before, and is not the scope that was closed.
  have still {other : Nat} (found : other ∈ outer :: rest) : other ∈ arena.opened := by
    rw [opened]
    exact mem_cons_of_mem _ found
  have gone {other : Nat} (notOpen : other ∉ outer :: rest) : other = id ∨ other ∉ arena.opened := by
    rw [opened]
    by_cases same : other = id
    · exact .inl same
    · exact .inr fun found => (mem_cons.mp found).elim same notOpen
  have unchanged {other : Nat} (notOpen : other ∉ arena.opened) (scope : Scope) :
      (endAt id now other scope).span.stop = scope.span.stop := by
    have different : id ≠ other := fun same => notOpen (same ▸ isOpen)
    rw [stop_endAt, if_neg different]
  refine ⟨coherent, fun {inner _} found other => ?_, fun there found => ?_,
    fun notOpen found => ?_, fun found foundOther lt => ?_⟩
  · obtain ⟨old, there, rfl⟩ := revision.exists_old found
    obtain ⟨further, around, parent, before, thereAround, starts, ends⟩ := laminar.outer there other
    obtain ⟨_, sameParent, _, sameStart⟩ := revision.keeps _ old
    obtain ⟨_, _, _, sameAround⟩ := revision.keeps further around
    refine ⟨further, _, sameParent.trans parent, before, revision.there thereAround,
      by rw [sameStart, sameAround]; exact starts, fun notOpen => ?_⟩
    rcases gone notOpen with rfl | notOpenBefore
    · -- A scope inside the closed one was closed before it.
      have innerGone : inner ∉ outer :: rest := fun found => Nat.lt_asymm before (stack.lt inner found)
      have innerClosed := (gone innerGone).resolve_left (Nat.ne_of_gt before)
      refine ⟨innerGone, ?_⟩
      rw [unchanged innerClosed, stop_endAt, if_pos rfl]
      exact Nat.le_trans (laminar.closed innerClosed there).2 (Nat.le_max_left ..)
    · obtain ⟨innerClosed, stops⟩ := ends notOpenBefore
      refine ⟨fun found => innerClosed (still found), ?_⟩
      rw [unchanged innerClosed, unchanged notOpenBefore]
      exact stops
  · obtain ⟨old, thereOld, rfl⟩ := revision.exists_old found
    rw [(revision.keeps _ old).2.2.2]
    exact laminar.opens (still there) thereOld
  · obtain ⟨old, there, rfl⟩ := revision.exists_old found
    rw [(revision.keeps _ old).2.2.2]
    rcases gone notOpen with rfl | notOpenBefore
    · have starts := laminar.opens isOpen there
      rw [stop_endAt, if_pos rfl]
      omega
    · rw [unchanged notOpenBefore]
      exact laminar.closed notOpenBefore there
  · obtain ⟨old, there, rfl⟩ := revision.exists_old found
    obtain ⟨oldOther, thereOther, rfl⟩ := revision.exists_old foundOther
    rcases laminar.apart there thereOther lt with around | ⟨notOpenBefore, ends⟩
    · exact .inl (around.mono revision.isParent)
    · refine .inr ⟨fun found => notOpenBefore (still found), ?_⟩
      rw [(revision.keeps _ oldOther).2.2.2, unchanged notOpenBefore]
      exact ends

theorem popTo (id : Nat) : (arena.popTo id now).Laminar length now :=
  popTo_induction (fun closed => closed.Laminar length now) (fun _ closed => closed.pop) laminar id

theorem declare (inside : Nat) (name : String) (decl : Nat) : (arena.declare inside name decl).Laminar length now := by
  have revision := revision_declare arena inside name decl
  refine ⟨laminar.toCoherent.declare inside name decl, fun found other => ?_, fun there found => ?_,
    fun notOpen found => ?_, fun found foundOther lt => ?_⟩
  · obtain ⟨old, there, rfl⟩ := revision.exists_old found
    obtain ⟨further, around, parent, before, thereAround, starts, ends⟩ := laminar.outer there other
    refine ⟨further, _, (revision.keeps _ old).2.1.trans parent, before, revision.there thereAround, ?_, ?_⟩
    · rw [span_naming, span_naming]
      exact starts
    · rw [span_naming, span_naming]
      exact ends
  · obtain ⟨old, thereOld, rfl⟩ := revision.exists_old found
    rw [span_naming]
    exact laminar.opens there thereOld
  · obtain ⟨old, there, rfl⟩ := revision.exists_old found
    rw [span_naming]
    exact laminar.closed notOpen there
  · obtain ⟨old, there, rfl⟩ := revision.exists_old found
    obtain ⟨oldOther, thereOther, rfl⟩ := revision.exists_old foundOther
    rw [span_naming, span_naming]
    exact (laminar.apart there thereOther lt).imp_left fun around => around.mono revision.isParent

end Laminar

/-! ## Places inside a scope -/

/-- A span lies in a scope. One that is open ends where reading has come to, but for the global scope, which holds
everything up to a given end. -/
def Holds (arena : Arena) (now stop : Nat) (id : Nat) (span : Span) : Prop :=
  ∃ scope, arena.scopes[id]? = some scope ∧ scope.span.start ≤ span.start ∧ span.stop ≤ stop ∧
    (id ≠ globalScope → span.stop ≤ now) ∧ (id ∉ arena.opened → span.stop ≤ scope.span.stop)

namespace Holds

variable {id : Nat} {span : Span}

variable (holds : arena.Holds now stop id span)

include holds

theorem mono (le : now ≤ later) : arena.Holds later stop id span := by
  obtain ⟨scope, found, starts, inside, reached, ends⟩ := holds
  exact ⟨scope, found, starts, inside, fun other => Nat.le_trans (reached other) le, ends⟩

theorem push : (arena.push kind start length).Holds now stop id span := by
  obtain ⟨scope, found, starts, inside, reached, ends⟩ := holds
  refine ⟨scope, there_push found, starts, inside, reached, fun notOpen => ends ?_⟩
  rwa [mem_opened_push (Array.getElem?_eq_some_iff.mp found).1] at notOpen

theorem pop (laminar : arena.Laminar length now) : (arena.pop now).Holds now stop id span := by
  refine pop_induction (·.Holds now stop id span) holds fun closing outer rest opened => ?_
  obtain ⟨scope, found, starts, inside, reached, ends⟩ := holds
  have revision := revision_close arena closing now
  refine ⟨_, revision.there found, ?_, inside, reached, fun notOpen => ?_⟩
  · rw [(revision.keeps id scope).2.2.2]
    exact starts
  · rw [stop_endAt]
    split
    · rename_i same
      have stack := laminar.stack
      rw [opened] at stack
      have positive : id ≠ globalScope := same ▸ Nat.ne_of_gt (Nat.zero_lt_of_lt stack.outer_lt)
      exact Nat.le_trans (reached positive) (Nat.le_max_left ..)
    · rename_i different
      refine ends fun there => ?_
      rw [opened] at there
      exact (mem_cons.mp there).elim (fun same => different same.symm) notOpen

theorem popTo (laminar : arena.Laminar length now) (closing : Nat) : (arena.popTo closing now).Holds now stop id span :=
  (popTo_induction (fun closed => closed.Laminar length now ∧ closed.Holds now stop id span)
    (fun _ closed => ⟨closed.1.pop, closed.2.pop closed.1⟩) ⟨laminar, holds⟩ closing).2

theorem declare (inside : Nat) (name : String) (decl : Nat) :
    (arena.declare inside name decl).Holds now stop id span := by
  obtain ⟨scope, found, rest⟩ := holds
  exact ⟨_, (revision_declare arena inside name decl).there found, by rw [span_naming]; exact rest⟩

end Holds

/-- What is read while a scope is open lies there. -/
theorem Laminar.holds_opened (laminar : arena.Laminar length now) {id : Nat} (isOpen : id ∈ arena.opened)
    {span : Span} (starts : now ≤ span.start) (ends : span.stop ≤ later) (inside : later ≤ stop) :
    arena.Holds later stop id span := by
  have there := Array.getElem?_eq_getElem (laminar.isOpen.lt id isOpen)
  exact ⟨_, there, Nat.le_trans (laminar.opens isOpen there) starts, Nat.le_trans ends inside, fun _ => ends,
    fun notOpen => absurd isOpen notOpen⟩

end Arena

/-! ## Places in a state -/

namespace Analysis

/-- Variables, parameters and labels are declared where their names are read. -/
def IsLocal (kind : DeclKind) : Prop := kind = .var ∨ kind = .param ∨ kind = .label

/-- What is left to read comes behind what was read. The scopes nest, and every declared name lies in its scope. -/
structure Placed (length stop : Nat) (state : State) : Prop where
  ordered : InOrder state.prevEnd stop state.rest
  laminar : state.arena.Laminar length state.prevEnd
  decls : ∀ {id : Nat} {decl : Decl}, state.decls[id]? = some decl →
    state.arena.Holds state.prevEnd stop decl.scope decl.span
  locals : ∀ {id : Nat} {decl : Decl}, state.decls[id]? = some decl → IsLocal decl.kind →
    decl.span.stop ≤ state.prevEnd

theorem getElem?_addDecl {state : State} {decl : Decl} (id : Nat) :
    (state.addDecl decl).decls[id]? = if id = state.decls.size then some decl else state.decls[id]? :=
  Array.getElem?_push

theorem getElem?_setDecl {state : State} {changed : Nat} {change : Decl → Decl} (id : Nat) :
    (state.setDecl changed change).decls[id]? =
      if changed = id then state.decls[id]?.map change else state.decls[id]? :=
  Array.getElem?_modify

/-- A declaration is the new one, or it was there before. -/
theorem addDecl_cases {state : State} {decl other : Decl} {id : Nat}
    (found : (state.addDecl decl).decls[id]? = some other) :
    id = state.decls.size ∧ other = decl ∨ state.decls[id]? = some other := by
  rw [getElem?_addDecl] at found
  split at found
  · next new => exact .inl ⟨new, (Option.some.inj found).symm⟩
  · exact .inr found

section Rewritten

variable {state : State} {id other : Nat} {old decl : Decl} {change : Decl → Decl}
  (there : state.decls[id]? = some old)

include there

/-- A declaration is the one that was written again, or it was there before. -/
theorem setDecl_cases (found : (state.setDecl id change).decls[other]? = some decl) :
    id = other ∧ decl = change old ∨ id ≠ other ∧ state.decls[other]? = some decl := by
  rw [getElem?_setDecl] at found
  split at found
  · rename_i same
    rw [← same, there] at found
    exact .inl ⟨same, (Option.some.inj found).symm⟩
  · next different => exact .inr ⟨different, found⟩

/-- What is true of the old declaration has to be true of the new one. -/
theorem exists_setDecl {holds : Decl → Prop} (keeps : holds old → holds (change old))
    (found : ∃ decl, state.decls[other]? = some decl ∧ holds decl) :
    ∃ decl, (state.setDecl id change).decls[other]? = some decl ∧ holds decl := by
  obtain ⟨decl, isThere, held⟩ := found
  rw [getElem?_setDecl]
  split
  · rename_i same
    subst same
    obtain rfl := Option.mem_unique isThere there
    exact ⟨change decl, by rw [there]; rfl, keeps held⟩
  · exact ⟨decl, isThere, held⟩

end Rewritten

namespace Placed

variable {length stop : Nat} {used : List Token} {state before after : State}

theorem le_prevEnd (placed : Placed length stop before) (extends_ : Extends used before after) :
    before.prevEnd ≤ after.prevEnd := by
  have ordered := placed.ordered
  rw [extends_.rest] at ordered
  rw [extends_.prevEnd]
  exact ordered.le_lastStop

theorem pass (placed : Placed length stop before) (pass : Pass used before after) : Placed length stop after := by
  have le := placed.le_prevEnd (.pass pass)
  have ordered := placed.ordered
  rw [pass.rest] at ordered
  refine ⟨?_, ?_, fun found => ?_, fun found isLocal => ?_⟩
  · rw [pass.prevEnd]
    exact ordered.drop
  · rw [pass.arena]
    exact placed.laminar.mono le
  · rw [pass.decls] at found
    rw [pass.arena]
    exact (placed.decls found).mono le
  · rw [pass.decls] at found
    exact Nat.le_trans (placed.locals found isLocal) le

section

variable (placed : Placed length stop state)

include placed

theorem within (callable : Option Callable) : Placed length stop (state.within callable) :=
  ⟨placed.ordered, placed.laminar, placed.decls, placed.locals⟩

theorem addDecl {decl : Decl}
    (holds : state.arena.Holds state.prevEnd stop decl.scope decl.span)
    (isLocal : IsLocal decl.kind → decl.span.stop ≤ state.prevEnd) : Placed length stop (state.addDecl decl) := by
  refine ⟨placed.ordered, placed.laminar, fun found => ?_, fun found local_ => ?_⟩
  · rcases addDecl_cases found with ⟨-, rfl⟩ | found
    · exact holds
    · exact placed.decls found
  · rcases addDecl_cases found with ⟨-, rfl⟩ | found
    · exact isLocal local_
    · exact placed.locals found local_

theorem bind (name : String) (id : Nat) : Placed length stop (state.bind name id) :=
  ⟨placed.ordered, placed.laminar.declare _ name id, fun found => (placed.decls found).declare _ name id,
    placed.locals⟩

theorem setDecl {id : Nat} {old : Decl} {change : Decl → Decl}
    (there : state.decls[id]? = some old)
    (holds : state.arena.Holds state.prevEnd stop (change old).scope (change old).span)
    (notLocal : ¬IsLocal (change old).kind) : Placed length stop (state.setDecl id change) := by
  refine ⟨placed.ordered, placed.laminar, fun found => ?_, fun found local_ => ?_⟩
  · rcases setDecl_cases there found with ⟨-, rfl⟩ | ⟨-, found⟩
    · exact holds
    · exact placed.decls found
  · rcases setDecl_cases there found with ⟨-, rfl⟩ | ⟨-, found⟩
    · exact absurd local_ notLocal
    · exact placed.locals found local_

end

theorem enter {env : Env} {kind : ScopeKind} {token : Token} {rest : List Token} (placed : Placed env.length stop state)
    (front : state.rest = token :: rest) : Placed env.length stop (state.enter env kind) := by
  have ordered := placed.ordered
  rw [front] at ordered
  have starts := (ordered.inside token mem_cons_self).1
  have place : state.place.start = token.span.start := by rw [State.place, front]; rfl
  let opened : State := { state with arena := state.arena.push kind state.place.start env.length }
  have laminar : opened.arena.Laminar env.length token.span.start := by
    change (state.arena.push kind state.place.start env.length).Laminar _ _
    rw [place]
    exact placed.laminar.push starts
  have passed : Pass [token] opened (opened.advance 1) := .one front
  have prevEnd := passed.prevEnd
  have behind : (opened.advance 1).rest = rest := by
    change state.rest.drop 1 = rest
    rw [front]
    rfl
  have filled := ordered.filled token mem_cons_self
  have le : state.prevEnd ≤ token.span.stop := by omega
  change Placed env.length stop (opened.advance 1)
  refine ⟨?_, ?_, fun found => ?_, fun found isLocal => ?_⟩
  · rw [prevEnd, behind]
    exact ordered.tail
  · rw [prevEnd]
    exact laminar.mono (Nat.le_of_lt filled)
  · rw [prevEnd]
    exact (placed.decls found).push.mono le
  · rw [prevEnd]
    exact Nat.le_trans (placed.locals found isLocal) le

theorem leave (placed : Placed length stop state) (scope : Nat) : Placed length stop (state.leave scope) :=
  ⟨placed.ordered, placed.laminar.popTo scope, fun found => (placed.decls found).popTo placed.laminar scope,
    placed.locals⟩

theorem close (placed : Placed length stop state) : Placed length stop state.close :=
  ⟨placed.ordered, placed.laminar.pop, fun found => (placed.decls found).pop placed.laminar, placed.locals⟩

/-- A token that was passed lies behind what was read before, and in front of what is left. -/
theorem passes (placed : Placed length stop before) (extends_ : Extends used before after) {token : Token}
    (found : token ∈ used) :
    before.prevEnd ≤ token.span.start ∧ token.span.start < token.span.stop ∧ token.span.stop ≤ after.prevEnd := by
  have ordered := placed.ordered
  rw [extends_.rest] at ordered
  rw [extends_.prevEnd]
  have isThere := mem_append_left after.rest found
  exact ⟨(ordered.inside token isThere).1, ordered.filled token isThere, ordered.stop_le_lastStop found⟩

/-- What stands at a token that was passed in the innermost scope lies there. -/
theorem holds_token (placed : Placed length stop before) (pass : Pass used before after) {token : Token}
    (found : token ∈ used) : after.arena.Holds after.prevEnd stop after.arena.current token.span := by
  obtain ⟨starts, _, ends⟩ := placed.passes (.pass pass) found
  rw [pass.arena]
  exact placed.laminar.holds_opened placed.laminar.current_mem starts ends (placed.pass pass).ordered.le

end Placed

end Analysis

end ScriptLint
