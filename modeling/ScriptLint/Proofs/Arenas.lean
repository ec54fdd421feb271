import ScriptLint.Scope

/-!
# Names and scopes

What a map of names gives after an entry was put in, and what opening, closing and declaring change in an arena: opening
a scope declares nothing, closing one moves only its end, and declaring a name leaves every other name alone.
-/

namespace ScriptLint

open List

namespace NameMap

variable {α : Type}

theorem get?_eq_some_iff (map : NameMap α) {name : String} {value : α} :
    map.get? name = some value ↔ (name, value) ∈ map.entries := by
  obtain ⟨entries, sorted⟩ := map
  change find name entries = some value ↔ (name, value) ∈ entries
  induction entries with
  | nil => simp [find]
  | cons entry entries ih =>
    obtain ⟨key, first⟩ := entry
    obtain ⟨above, sorted⟩ := pairwise_cons.mp sorted
    rw [find]
    split
    · rename_i same
      obtain rfl := beq_iff_eq.mp same
      have absent : (key, value) ∉ entries := fun found => String.lt_irrefl key (above _ found)
      simp [absent, eq_comm]
    · rename_i different
      have other : (name, value) ≠ (key, first) := fun same => different (by simp [(Prod.mk.inj same).1])
      rw [ih sorted]
      simp [other]

theorem get?_insert (map : NameMap α) (name : String) (value : α) (other : String) :
    (map.insert name value).get? other = if name = other then some value else map.get? other := by
  change find other (place name value map.entries) = if name = other then some value else find other map.entries
  induction map.entries with
  | nil => simp [place, find]
  | cons entry _ ih =>
    obtain ⟨key, old⟩ := entry
    rw [place]
    split
    · rw [find]
      simp only [beq_iff_eq]
    · split
      · rename_i same
        rw [find, find, same]
        by_cases found : name = other
        · simp [found]
        · simp [found]
      · rename_i different
        rw [find, find, ih]
        by_cases found : key = other
        · have absent : name ≠ other := fun same => different (found.trans same.symm)
          simp [absent]
        · simp [found]

/-- What is found is the new value, or it was there before. -/
theorem get?_insert_cases {map : NameMap α} {name other : String} {value known : α}
    (found : (map.insert name value).get? other = some known) :
    name = other ∧ value = known ∨ map.get? other = some known := by
  rw [get?_insert] at found
  split at found
  · next same => exact .inl ⟨same, Option.some.inj found⟩
  · exact .inr found

theorem get?_insertNew (map : NameMap α) (name : String) (value : α) (other : String) :
    (map.insertNew name value).get? other =
      if name = other then some ((map.get? name).getD value) else map.get? other := by
  rw [insertNew, contains]
  cases found : map.get? name with
  | none => exact get?_insert map name value other
  | some =>
    by_cases same : name = other
    · subst same
      simpa using found
    · simp [same]

end NameMap

namespace Arena

variable {arena : Arena} {name other : String} {scope id decl stop start length : Nat} {kind : ScopeKind}

/-! ## What changes in a scope -/

theorem getElem?_push (index : Nat) :
    (arena.push kind start length).scopes[index]? =
      if index = arena.scopes.size then some ⟨arena.scopes.size, some arena.current, kind, ⟨start, length⟩, ∅⟩
      else arena.scopes[index]? := Array.getElem?_push

theorem getElem?_close (index : Nat) :
    (arena.close id stop).scopes[index]? =
      if id = index then
        arena.scopes[index]?.map fun scope => { scope with span := ⟨scope.span.start, max stop scope.span.start⟩ }
      else arena.scopes[index]? := Array.getElem?_modify

theorem getElem?_declare (index : Nat) :
    (arena.declare scope name decl).scopes[index]? =
      if scope = index then arena.scopes[index]?.map fun scope =>
        { scope with names := scope.names.insertNew name decl }
      else arena.scopes[index]? := Array.getElem?_modify

/-- What holds when the innermost scope is closed holds when several are. -/
theorem popTo_induction (holds : Arena → Prop) (step : ∀ arena, holds arena → holds (arena.pop stop))
    (first : holds arena) (id : Nat) : holds (arena.popTo id stop) := by
  have all (opened : List Nat) : ∀ arena, holds arena → holds (arena.popAll id stop opened) := by
    induction opened with
    | nil => exact fun _ held => held
    | cons _ _ ih =>
      intro arena held
      rw [popAll]
      split
      · exact ih _ (step arena held)
      · exact held
  exact all arena.opened arena first

/-- Closing the innermost scope either does nothing, for the global scope, or closes one inside another. -/
theorem pop_induction (holds : Arena → Prop) (same : holds arena)
    (closed : ∀ id outer rest, arena.opened = id :: outer :: rest →
      holds { arena.close id stop with opened := outer :: rest }) : holds (arena.pop stop) := by
  rw [pop]
  split
  · next id outer rest opened => exact closed id outer rest opened
  · exact same

/-! ## Names -/

@[simp] theorem named?_push : (arena.push kind start length).named? scope name = arena.named? scope name := by
  rw [named?, named?, get?, get?, getElem?_push]
  split
  · rename_i new
    rw [new, Array.getElem?_eq_none (Nat.le_refl _)]
    rfl
  · rfl

@[simp] theorem named?_close : (arena.close id stop).named? scope name = arena.named? scope name := by
  rw [named?, named?, get?, get?, getElem?_close]
  split
  · cases arena.scopes[scope]? <;> rfl
  · rfl

@[simp] theorem named?_pop : (arena.pop stop).named? scope name = arena.named? scope name :=
  pop_induction (fun popped => popped.named? scope name = _) rfl fun _ _ _ _ => named?_close

@[simp] theorem named?_popTo : (arena.popTo id stop).named? scope name = arena.named? scope name := by
  refine popTo_induction (fun closed => closed.named? scope name = arena.named? scope name)
    (fun closed same => ?_) rfl id
  rw [named?_pop, same]

/-- A name that is declared is the only one that can be new. -/
theorem named?_declare {inside : Nat} (found : (arena.declare scope name decl).named? inside other = some id) :
    arena.named? inside other = some id ∨ inside = scope ∧ other = name ∧ id = decl := by
  rw [named?, get?, getElem?_declare] at found
  split at found
  · rename_i same
    subst same
    obtain ⟨changed, there, value⟩ := Option.bind_eq_some_iff.mp found
    obtain ⟨old, old_there, rfl⟩ := Option.map_eq_some_iff.mp there
    rw [NameMap.get?_insertNew] at value
    have before : arena.named? scope other = old.names.get? other := by rw [named?, get?, old_there]; rfl
    split at value
    · rename_i same
      subst same
      cases earlier : old.names.get? name with
      | none =>
        rw [earlier] at value
        exact .inr ⟨rfl, rfl, (Option.some.inj value).symm⟩
      | some =>
        rw [earlier] at value
        exact .inl (by rw [before, earlier]; exact value)
    · exact .inl (before.trans value)
  · exact .inl found

/-- A name keeps what it was declared as. -/
theorem named?_declare_of_named {inside : Nat} (found : arena.named? inside other = some id) :
    (arena.declare scope name decl).named? inside other = some id := by
  obtain ⟨old, there, value⟩ := Option.bind_eq_some_iff.mp found
  rw [get?] at there
  rw [named?, get?, getElem?_declare, there]
  split
  · change (old.names.insertNew name decl).get? other = some id
    rw [NameMap.get?_insertNew]
    split
    · rename_i same
      rw [same, value]
      rfl
    · exact value
  · exact value

theorem named?_declare_self (there : scope < arena.scopes.size) (free : arena.named? scope name = none) :
    (arena.declare scope name decl).named? scope name = some decl := by
  have found := Array.getElem?_eq_getElem there
  rw [named?, get?, found] at free
  rw [named?, get?, getElem?_declare, if_pos rfl, found]
  change (arena.scopes[scope].names.insertNew name decl).get? name = some decl
  rw [NameMap.get?_insertNew, if_pos rfl]
  change arena.scopes[scope].names.get? name = none at free
  rw [free]
  rfl

/-! ## Open scopes -/

/-- Some scope is open, and every open one is there. -/
structure Open (arena : Arena) : Prop where
  some : arena.opened ≠ []
  lt : ∀ id ∈ arena.opened, id < arena.scopes.size

theorem Open.push (isOpen : arena.Open) : (arena.push kind start length).Open where
  some := cons_ne_nil _ _
  lt := by
    have size : (arena.push kind start length).scopes.size = arena.scopes.size + 1 := Array.size_push ..
    refine forall_mem_cons.mpr ⟨?_, fun id found => ?_⟩
    · rw [size]
      exact Nat.lt_succ_self _
    · rw [size]
      exact Nat.lt_succ_of_lt (isOpen.lt id found)

theorem size_declare : (arena.declare scope name decl).scopes.size = arena.scopes.size := Array.size_modify

theorem size_pop : (arena.pop stop).scopes.size = arena.scopes.size :=
  pop_induction (fun popped => popped.scopes.size = _) rfl fun _ _ _ _ => Array.size_modify

theorem size_popTo : (arena.popTo id stop).scopes.size = arena.scopes.size :=
  popTo_induction (fun closed => closed.scopes.size = arena.scopes.size) (fun _ same => size_pop.trans same) rfl id

/-- Closing a scope that stands in front of others leaves the others open. -/
theorem opened_pop {rest : List Nat} (opened : arena.opened = id :: rest) (some : rest ≠ []) :
    (arena.pop stop).opened = rest := by
  obtain ⟨outer, more, rfl⟩ := exists_cons_of_ne_nil some
  rw [pop, opened]

theorem opened_popTo {rest : List Nat} (opened : arena.opened = id :: rest) (some : rest ≠ [])
    (absent : id ∉ rest) : (arena.popTo id stop).opened = rest := by
  have inner : (arena.pop stop).opened = rest := opened_pop opened some
  have ends (list : List Nat) : ((arena.pop stop).popAll id stop list).opened = rest := by
    cases list with
    | nil => exact inner
    | cons =>
      have notThere : rest.contains id = false := by simpa using absent
      rw [popAll, inner, notThere, Bool.and_false]
      exact inner
  obtain ⟨outer, more, rfl⟩ := exists_cons_of_ne_nil some
  rw [popTo, opened, popAll, opened]
  have there : (decide ((id :: outer :: more).length > 1) && (id :: outer :: more).contains id) := by simp
  rw [if_pos there]
  exact ends _

end Arena

end ScriptLint
