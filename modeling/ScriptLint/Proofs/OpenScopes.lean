import ScriptLint.Proofs.Arenas

/-!
# Open scopes

A document holds its open scopes twice: as a list, and as the chain of parents of the innermost one. The two stay in
step whatever is opened, closed and declared, and in whatever order, so a name looked up along the parents is the one
that the innermost open scope with that name has.
-/

namespace ScriptLint

open List

/-- One scope is the parent of another. -/
def IsParent (scopes : Array Scope) (outer id : Nat) : Prop :=
  ∃ scope, scopes[id]? = some scope ∧ scope.parent = some outer

/-- Open scopes, innermost first, each the parent of the one before it, up to the global scope. -/
inductive Stack (scopes : Array Scope) : List Nat → Prop where
  | global : Stack scopes [Arena.globalScope]
  | inner {id outer : Nat} {rest : List Nat} (parent : IsParent scopes outer id) (lt : outer < id)
      (more : Stack scopes (outer :: rest)) : Stack scopes (id :: outer :: rest)

namespace Stack

variable {scopes others : Array Scope} {id : Nat} {rest opened : List Nat}

theorem mono (stack : Stack scopes opened)
    (parents : ∀ {outer id}, IsParent scopes outer id → IsParent others outer id) : Stack others opened := by
  induction stack with
  | global => exact .global
  | inner parent lt _ ih => exact .inner (parents parent) lt ih

theorem ne_nil (stack : Stack scopes opened) : opened ≠ [] := by
  cases stack <;> exact cons_ne_nil _ _

/-- Each open scope is related to those further out as a scope is to its parent. -/
theorem forall_mem {rel : Nat → Nat → Prop}
    (single : ∀ {outer id}, IsParent scopes outer id → outer < id → rel outer id)
    (trans : ∀ {outer id further}, rel further outer → rel outer id → rel further id)
    (stack : Stack scopes (id :: rest)) : ∀ outer ∈ rest, rel outer id := by
  induction rest generalizing id with
  | nil => exact nofun
  | cons _ _ ih =>
    cases stack with
    | inner parent lt more =>
      exact forall_mem_cons.mpr ⟨single parent lt, fun _ found => trans (ih more _ found) (single parent lt)⟩

/-- Scopes further out come earlier. -/
theorem lt (stack : Stack scopes (id :: rest)) : ∀ outer ∈ rest, outer < id :=
  stack.forall_mem (fun _ lt => lt) Nat.lt_trans

theorem global_mem (stack : Stack scopes opened) : Arena.globalScope ∈ opened := by
  induction stack with
  | global => exact mem_singleton_self _
  | inner _ _ _ ih => exact mem_cons_of_mem _ ih

theorem tail {outer : Nat} (stack : Stack scopes (id :: outer :: rest)) : Stack scopes (outer :: rest) := by
  cases stack with
  | inner _ _ more => exact more

theorem outer_lt {outer : Nat} (stack : Stack scopes (id :: outer :: rest)) : outer < id := by
  cases stack with
  | inner _ lt => exact lt

/-- There are no more scopes around a scope than come before it. -/
theorem length_le (stack : Stack scopes (id :: rest)) : (id :: rest).length ≤ id + 1 := by
  induction rest generalizing id with
  | nil => simp
  | cons _ _ ih =>
    have shorter := ih stack.tail
    have lt := stack.outer_lt
    simp only [length_cons] at shorter ⊢
    omega

end Stack

namespace Arena

variable {arena : Arena} {length start stop : Nat} {kind : ScopeKind}

/-- Scopes are changed, but not their numbers, their parents and where they start. -/
structure Revision (scopes revised : Array Scope) (change : Nat → Scope → Scope) : Prop where
  changes : ∀ id, revised[id]? = scopes[id]?.map (change id)
  keeps : ∀ id scope, (change id scope).id = scope.id ∧ (change id scope).parent = scope.parent ∧
    (change id scope).kind = scope.kind ∧ (change id scope).span.start = scope.span.start

namespace Revision

variable {scopes revised : Array Scope} {change : Nat → Scope → Scope} {id outer : Nat} {scope : Scope}

variable (revision : Revision scopes revised change)

include revision

theorem there (found : scopes[id]? = some scope) : revised[id]? = some (change id scope) := by
  rw [revision.changes, found]
  rfl

theorem exists_old (found : revised[id]? = some scope) : ∃ old, scopes[id]? = some old ∧ scope = change id old := by
  rw [revision.changes] at found
  obtain ⟨old, there, rfl⟩ := Option.map_eq_some_iff.mp found
  exact ⟨old, there, rfl⟩

theorem isParent (parent : IsParent scopes outer id) : IsParent revised outer id := by
  obtain ⟨scope, found, isParent⟩ := parent
  exact ⟨_, revision.there found, (revision.keeps id scope).2.1.trans isParent⟩

end Revision

/-- Where a scope ends when one is closed. -/
def endAt (closing stop : Nat) (id : Nat) (scope : Scope) : Scope :=
  if closing = id then { scope with span := ⟨scope.span.start, max stop scope.span.start⟩ } else scope

theorem stop_endAt (closing stop id : Nat) (scope : Scope) :
    (endAt closing stop id scope).span.stop = if closing = id then max stop scope.span.start else scope.span.stop := by
  rw [endAt]
  split <;> rfl

theorem revision_close (arena : Arena) (id stop : Nat) :
    Revision arena.scopes (arena.close id stop).scopes (endAt id stop) where
  changes other := by
    rw [getElem?_close]
    unfold endAt
    split
    · rfl
    · exact Option.map_id'.symm
  keeps other scope := by
    rw [endAt]
    split <;> exact ⟨rfl, rfl, rfl, rfl⟩

/-- What a scope declares when a name is added to one. -/
def naming (inside : Nat) (name : String) (decl : Nat) (id : Nat) (scope : Scope) : Scope :=
  if inside = id then { scope with names := scope.names.insertNew name decl } else scope

theorem span_naming (inside : Nat) (name : String) (decl id : Nat) (scope : Scope) :
    (naming inside name decl id scope).span = scope.span := by
  rw [naming]
  split <;> rfl

theorem revision_declare (arena : Arena) (inside : Nat) (name : String) (decl : Nat) :
    Revision arena.scopes (arena.declare inside name decl).scopes (naming inside name decl) where
  changes other := by
    rw [getElem?_declare]
    unfold naming
    split
    · rfl
    · exact Option.map_id'.symm
  keeps other scope := by
    rw [naming]
    split <;> exact ⟨rfl, rfl, rfl, rfl⟩

theorem push_cases {id : Nat} {scope : Scope} (found : (arena.push kind start length).scopes[id]? = some scope) :
    (id = arena.scopes.size ∧ scope = ⟨arena.scopes.size, some arena.current, kind, ⟨start, length⟩, ∅⟩) ∨
      id < arena.scopes.size ∧ arena.scopes[id]? = some scope := by
  rw [getElem?_push] at found
  split at found
  · next new => exact .inl ⟨new, (Option.some.inj found).symm⟩
  · exact .inr ⟨(Array.getElem?_eq_some_iff.mp found).1, found⟩

theorem there_push {id : Nat} {scope : Scope} (found : arena.scopes[id]? = some scope) :
    (arena.push kind start length).scopes[id]? = some scope := by
  rw [getElem?_push, if_neg (Nat.ne_of_lt (Array.getElem?_eq_some_iff.mp found).1), found]

theorem isParent_push {outer id : Nat} (parent : IsParent arena.scopes outer id) :
    IsParent (arena.push kind start length).scopes outer id := by
  obtain ⟨scope, found, isParent⟩ := parent
  exact ⟨scope, there_push found, isParent⟩

/-! ## The invariant -/

/-- Scopes are numbered by their places, and the parent of each but the global one comes before it. The open scopes are
a chain of parents down to the global scope, which spans the whole document. -/
structure Coherent (arena : Arena) (length : Nat) : Prop where
  ids : ∀ {id : Nat} {scope : Scope}, arena.scopes[id]? = some scope → scope.id = id
  global : ∃ scope, arena.scopes[globalScope]? = some scope ∧ scope.parent = none ∧ scope.kind = .global ∧
    scope.span = ⟨0, length⟩
  stack : Stack arena.scopes arena.opened
  parents : ∀ {id : Nat} {scope : Scope}, arena.scopes[id]? = some scope → id ≠ globalScope →
    ∃ outer, scope.parent = some outer ∧ outer < id

theorem eq_of_getElem?_new {id : Nat} {scope : Scope} (found : (new length).scopes[id]? = some scope) :
    id = globalScope ∧ scope = ⟨globalScope, none, .global, ⟨0, length⟩, ∅⟩ := by
  cases id with
  | zero => exact ⟨rfl, (Option.some.inj found).symm⟩
  | succ => cases found

theorem coherent_new (length : Nat) : (new length).Coherent length where
  ids found := by
    obtain ⟨rfl, rfl⟩ := eq_of_getElem?_new found
    rfl
  global := ⟨_, rfl, rfl, rfl, rfl⟩
  stack := .global
  parents found other := absurd (eq_of_getElem?_new found).1 other

/-- A revision that leaves the span of the global scope alone. -/
theorem Revision.coherent {revised : Arena} {change : Nat → Scope → Scope}
    (revision : Revision arena.scopes revised.scopes change) (coherent : arena.Coherent length)
    (stack : Stack arena.scopes revised.opened)
    (global : ∀ scope, (change globalScope scope).span = scope.span) : revised.Coherent length where
  ids found := by
    obtain ⟨old, there, rfl⟩ := revision.exists_old found
    exact (revision.keeps _ old).1.trans (coherent.ids there)
  global := by
    obtain ⟨scope, found, parent, kind, span⟩ := coherent.global
    obtain ⟨_, sameParent, sameKind, _⟩ := revision.keeps globalScope scope
    exact ⟨_, revision.there found, sameParent.trans parent, sameKind.trans kind, (global scope).trans span⟩
  stack := stack.mono revision.isParent
  parents found other := by
    obtain ⟨old, there, rfl⟩ := revision.exists_old found
    obtain ⟨outer, parent, before⟩ := coherent.parents there other
    exact ⟨outer, (revision.keeps _ old).2.1.trans parent, before⟩

namespace Coherent

variable (coherent : arena.Coherent length)

include coherent

theorem isOpen : arena.Open where
  some := coherent.stack.ne_nil
  lt id found := by
    -- The innermost scope is there, and the others come before it.
    have present {list : List Nat} (stack : Stack arena.scopes list) : ∀ id ∈ list, id < arena.scopes.size := by
      induction stack with
      | global =>
        obtain ⟨scope, there, _⟩ := coherent.global
        exact forall_mem_singleton.mpr (Array.getElem?_eq_some_iff.mp there).1
      | inner parent _ _ ih =>
        obtain ⟨scope, there, _⟩ := parent
        exact forall_mem_cons.mpr ⟨(Array.getElem?_eq_some_iff.mp there).1, ih⟩
    exact present coherent.stack id found

theorem current_mem : arena.current ∈ arena.opened := by
  obtain ⟨id, rest, opened⟩ := exists_cons_of_ne_nil coherent.stack.ne_nil
  rw [current, opened]
  exact mem_cons_self

theorem stack_current : ∃ rest, arena.opened = arena.current :: rest ∧ Stack arena.scopes (arena.current :: rest) := by
  obtain ⟨id, rest, opened⟩ := exists_cons_of_ne_nil coherent.stack.ne_nil
  have same : arena.opened = arena.current :: rest := by rw [current, opened]; rfl
  exact ⟨rest, same, same ▸ coherent.stack⟩

theorem push : (arena.push kind start length).Coherent length := by
  have earlier := coherent.isOpen.lt _ coherent.current_mem
  refine ⟨fun found => ?_, ?_, ?_, fun found other => ?_⟩
  · rcases push_cases found with ⟨rfl, rfl⟩ | ⟨_, found⟩
    · rfl
    · exact coherent.ids found
  · obtain ⟨scope, found, rest⟩ := coherent.global
    exact ⟨scope, there_push found, rest⟩
  · obtain ⟨rest, opened, stack⟩ := coherent.stack_current
    have parent : IsParent (arena.push kind start length).scopes arena.current arena.scopes.size :=
      ⟨_, by rw [getElem?_push, if_pos rfl], rfl⟩
    change Stack _ (arena.scopes.size :: arena.opened)
    rw [opened]
    exact .inner parent earlier (stack.mono isParent_push)
  · rcases push_cases found with ⟨rfl, rfl⟩ | ⟨_, found⟩
    · exact ⟨arena.current, rfl, earlier⟩
    · exact coherent.parents found other

theorem pop : (arena.pop stop).Coherent length := by
  refine pop_induction (·.Coherent length) coherent fun id outer rest opened => ?_
  have stack := coherent.stack
  rw [opened] at stack
  have inner : id ≠ globalScope := Nat.ne_of_gt (Nat.zero_lt_of_lt stack.outer_lt)
  refine Revision.coherent (revision_close arena id stop) coherent stack.tail fun scope => ?_
  rw [endAt, if_neg inner]

theorem declare (inside : Nat) (name : String) (decl : Nat) : (arena.declare inside name decl).Coherent length :=
  (revision_declare arena inside name decl).coherent coherent coherent.stack fun _ => span_naming ..

/-- Following the parents of a scope is going through the scopes around it. -/
theorem lookupFrom_eq (name : String) (steps : Nat) : ∀ {id rest},
    Stack arena.scopes (id :: rest) → rest.length ≤ steps →
      arena.lookupFrom name steps id = (id :: rest).findSome? (arena.named? · name) := by
  induction steps with
  | zero =>
    intro id rest stack enough
    rw [lookupFrom, eq_nil_of_length_eq_zero (Nat.le_zero.mp enough), findSome?_cons]
    cases arena.named? id name <;> rfl
  | succ _ ih =>
    intro id rest stack enough
    rw [lookupFrom, findSome?_cons]
    cases arena.named? id name with
    | some => rfl
    | none =>
      change ((arena.scopes[id]?).bind Scope.parent).bind _ = _
      cases stack with
      | global =>
        obtain ⟨scope, there, root, _⟩ := coherent.global
        rw [there, Option.bind_some, root]
        rfl
      | inner parent _ more =>
        obtain ⟨scope, there, isParent⟩ := parent
        rw [there, Option.bind_some, isParent]
        exact ih more (Nat.le_of_succ_le_succ enough)

/-- A name is found in the first of the open scopes that has it. -/
theorem lookup_eq (name : String) : arena.lookup name = arena.opened.findSome? (arena.named? · name) := by
  obtain ⟨rest, opened, stack⟩ := coherent.stack_current
  have present := coherent.isOpen.lt _ coherent.current_mem
  have short := stack.length_le
  rw [length_cons] at short
  rw [opened]
  exact coherent.lookupFrom_eq name _ stack (by omega)

end Coherent

/-! ## Operations -/

/-- What is done to the scopes of a document. -/
inductive Operation where
  | push (kind : ScopeKind) (start : Nat)
  | pop (stop : Nat)
  | popTo (scope stop : Nat)
  | declare (scope : Nat) (name : String) (decl : Nat)

def perform (length : Nat) (arena : Arena) : Operation → Arena
  | .push kind start => arena.push kind start length
  | .pop stop => arena.pop stop
  | .popTo scope stop => arena.popTo scope stop
  | .declare scope name decl => arena.declare scope name decl

theorem Coherent.perform (coherent : arena.Coherent length) (operation : Operation) :
    (arena.perform length operation).Coherent length := by
  cases operation with
  | push => exact coherent.push
  | pop => exact coherent.pop
  | popTo scope => exact popTo_induction (·.Coherent length) (fun _ closed => closed.pop) coherent scope
  | declare scope name decl => exact coherent.declare scope name decl

/-- A scope that starts inside the document does not end before it starts. -/
def Spanned (arena : Arena) (length : Nat) : Prop :=
  ∀ (id : Nat) (scope : Scope), arena.scopes[id]? = some scope → scope.span.start ≤ length →
    scope.span.start ≤ scope.span.stop

theorem Spanned.pop (spanned : arena.Spanned length) : (arena.pop stop).Spanned length := by
  refine pop_induction (Spanned · length) spanned fun id _ _ _ other scope found inside => ?_
  obtain ⟨old, there, rfl⟩ := (revision_close arena id stop).exists_old found
  rw [stop_endAt]
  rw [((revision_close arena id stop).keeps other old).2.2.2] at inside ⊢
  split
  · exact Nat.le_max_right ..
  · exact spanned other old there inside

theorem Spanned.perform (spanned : arena.Spanned length) (operation : Operation) :
    (arena.perform length operation).Spanned length := by
  cases operation with
  | push =>
    intro id scope found inside
    rcases push_cases found with ⟨rfl, rfl⟩ | ⟨_, found⟩
    · exact inside
    · exact spanned id scope found inside
  | pop => exact spanned.pop
  | popTo scope => exact popTo_induction (Spanned · length) (fun _ closed => closed.pop) spanned scope
  | declare inside name decl =>
    intro id scope found inDocument
    obtain ⟨old, there, rfl⟩ := (revision_declare arena inside name decl).exists_old found
    rw [span_naming] at inDocument ⊢
    exact spanned id old there inDocument

/-- Scopes keep their kind, their parent, their start and what their names are declared as. -/
structure Grows (before after : Arena) : Prop where
  scopes : ∀ {id : Nat} {scope : Scope}, before.scopes[id]? = some scope → ∃ kept, after.scopes[id]? = some kept ∧
    kept.kind = scope.kind ∧ kept.parent = scope.parent ∧ kept.span.start = scope.span.start
  names : ∀ {id : Nat} {name : String} {decl : Nat}, before.named? id name = some decl →
    after.named? id name = some decl

namespace Grows

variable {middle after : Arena}

theorem refl (arena : Arena) : Grows arena arena := ⟨fun found => ⟨_, found, rfl, rfl, rfl⟩, id⟩

theorem trans (first : Grows arena middle) (second : Grows middle after) : Grows arena after where
  scopes found := by
    obtain ⟨kept, there, kind, parent, start⟩ := first.scopes found
    obtain ⟨last, thereLast, sameKind, sameParent, sameStart⟩ := second.scopes there
    exact ⟨last, thereLast, sameKind.trans kind, sameParent.trans parent, sameStart.trans start⟩
  names found := second.names (first.names found)

theorem revision {change : Nat → Scope → Scope} (revision : Revision arena.scopes after.scopes change)
    (names : ∀ {id name decl}, arena.named? id name = some decl → after.named? id name = some decl) :
    Grows arena after where
  scopes {id scope} found := by
    obtain ⟨_, parent, kind, start⟩ := revision.keeps id scope
    exact ⟨_, revision.there found, kind, parent, start⟩
  names := names

theorem pop (arena : Arena) (stop : Nat) : Grows arena (arena.pop stop) :=
  pop_induction (Grows arena) (refl arena) fun id _ _ _ =>
    .revision (revision_close arena id stop) fun found => named?_close.trans found

theorem perform (arena : Arena) (operation : Operation) : Grows arena (arena.perform length operation) := by
  cases operation with
  | push => exact ⟨fun found => ⟨_, there_push found, rfl, rfl, rfl⟩, fun found => named?_push.trans found⟩
  | pop stop => exact pop arena stop
  | popTo scope stop =>
    exact popTo_induction (Grows arena) (fun _ closed => closed.trans (pop _ stop)) (refl arena) scope
  | declare scope name decl => exact .revision (revision_declare arena scope name decl) named?_declare_of_named

end Grows

end Arena

end ScriptLint
