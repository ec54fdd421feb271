import ScriptLint.Proofs.Arenas
import ScriptLint.Proofs.Walks

/-!
# What reading leaves alone

Reading passes over tokens in order and only ever adds findings, scopes and declarations. The functions, the states and
the declarations made in advance are fixed before anything is read, and whatever was opened on the way is closed again:
behind a statement, a callable or an item the same scopes are open as in front of it.
-/

namespace ScriptLint.Analysis

open List

namespace State

variable (state : State)

/-- Open a scope at the next token and pass over that. -/
def enter (env : Env) (kind : ScopeKind) : State :=
  { state with arena := state.arena.push kind state.place.start env.length }.advance 1

/-- Close a scope and those inside it at the last token read. -/
def leave (scope : Nat) : State := { state with arena := state.arena.popTo scope state.prevEnd }

/-- Close the innermost scope at the last token read. -/
def close : State := { state with arena := state.arena.pop state.prevEnd }

def addDecl (decl : Decl) : State := { state with decls := state.decls.push decl }

def setDecl (id : Nat) (change : Decl → Decl) : State := { state with decls := state.decls.modify id change }

/-- Bind a name in the innermost scope. -/
def bind (name : String) (id : Nat) : State :=
  { state with arena := state.arena.declare state.arena.current name id }

/-- Change what is known of the callable that is being read. -/
def within (callable : Option Callable) : State := { state with callable }

/-- Declare a variable or a parameter in the innermost scope. -/
def declare (kind : DeclKind) (name : Token) (type : SemType) (full : Span) : State :=
  (state.addDecl ⟨state.decls.size, name.text, kind, type, [], name.span, full, state.arena.current⟩).bind name.text
    state.decls.size

/-- Set a label. -/
def label (mark : Span) (name : Token) : State :=
  (state.addDecl ⟨state.decls.size, name.text, .label, .void, [], name.span, mark.cover name.span,
    state.arena.current⟩).within (state.callable.map fun callable =>
      { callable with labels := callable.labels.insert name.text state.decls.size })

/-- Record a jump to a label that may not be known yet. -/
def jump (name : Token) : State :=
  (state.refer ⟨name.text, name.span, .unresolved⟩).within (state.callable.map fun callable =>
    { callable with jumps := callable.jumps ++ [⟨name.text, name.span, state.refs.size⟩] })

/-- Nothing is left, or a closing brace comes next. -/
def AtEnd : Prop := state.rest = [] ∨ ∃ closing rest, state.rest = closing :: rest ∧ closing.isPunct "\x7d" = true

end State

/-- Some tokens were passed over. The tables are the same, findings, scopes and names in scopes were only added, and the
same scopes are open. -/
structure Extends (used : List Token) (before after : State) : Prop where
  rest : before.rest = used ++ after.rest
  prevEnd : after.prevEnd = lastStop before.prevEnd used
  states : after.states = before.states
  functions : after.functions = before.functions
  prototypes : after.prototypes = before.prototypes
  findings : before.findings.toList <+: after.findings.toList
  size : before.arena.scopes.size ≤ after.arena.scopes.size
  names : ∀ {scope name id}, before.arena.named? scope name = some id →
    after.arena.named? scope name = some id
  opened : before.arena.Open → after.arena.opened = before.arena.opened

namespace Extends

variable {used more : List Token} {before middle after : State}

section

variable (extends_ : Extends used before after)

include extends_

theorem suffix : after.rest <:+ before.rest :=
  ⟨used, extends_.rest.symm⟩

theorem length_lt (moves : used ≠ []) : after.rest.length < before.rest.length := by
  rw [extends_.rest, length_append]
  exact Nat.lt_add_of_pos_left (length_pos_iff.mpr moves)

theorem isOpen (isOpen : before.arena.Open) : after.arena.Open where
  some := by rw [extends_.opened isOpen]; exact isOpen.some
  lt id found := by
    rw [extends_.opened isOpen] at found
    exact Nat.lt_of_lt_of_le (isOpen.lt id found) extends_.size

end

theorem trans (first : Extends used before middle) (second : Extends more middle after) :
    Extends (used ++ more) before after where
  rest := by rw [first.rest, second.rest, append_assoc]
  prevEnd := by rw [second.prevEnd, first.prevEnd, lastStop_append]
  states := second.states.trans first.states
  functions := second.functions.trans first.functions
  prototypes := second.prototypes.trans first.prototypes
  findings := first.findings.trans second.findings
  size := Nat.le_trans first.size second.size
  names found := second.names (first.names found)
  opened isOpen := (second.opened (first.isOpen isOpen)).trans (first.opened isOpen)

theorem andThen (first : Extends used before middle) (second : Extends [] middle after) :
    Extends used before after := by
  have whole := first.trans second
  rwa [append_nil] at whole

theorem pass (pass : Pass used before after) : Extends used before after where
  rest := pass.rest
  prevEnd := pass.prevEnd
  states := congrArg Declared.states pass.declared
  functions := congrArg Declared.functions pass.declared
  prototypes := congrArg Declared.prototypes pass.declared
  findings := pass.findings
  size := Nat.le_of_eq (by rw [pass.arena])
  names found := by rwa [pass.arena]
  opened _ := by rw [pass.arena]

theorem refl (state : State) : Extends [] state state := .pass (.refl state)

theorem within (callable : Option Callable) (state : State) : Extends [] state (state.within callable) :=
  ⟨rfl, rfl, rfl, rfl, rfl, prefix_rfl, Nat.le_refl _, fun found => found, fun _ => rfl⟩

theorem refer (state : State) (ref : Ref) : Extends [] state (state.refer ref) :=
  ⟨rfl, rfl, rfl, rfl, rfl, prefix_rfl, Nat.le_refl _, fun found => found, fun _ => rfl⟩

theorem setDecl (state : State) (id : Nat) (change : Decl → Decl) : Extends [] state (state.setDecl id change) :=
  ⟨rfl, rfl, rfl, rfl, rfl, prefix_rfl, Nat.le_refl _, fun found => found, fun _ => rfl⟩

theorem addDecl (state : State) (decl : Decl) : Extends [] state (state.addDecl decl) :=
  ⟨rfl, rfl, rfl, rfl, rfl, prefix_rfl, Nat.le_refl _, fun found => found, fun _ => rfl⟩

theorem bind (state : State) (name : String) (id : Nat) : Extends [] state (state.bind name id) :=
  ⟨rfl, rfl, rfl, rfl, rfl, prefix_rfl, Nat.le_of_eq Arena.size_declare.symm, Arena.named?_declare_of_named,
    fun _ => rfl⟩

variable {env : Env} {kind : ScopeKind} {token : Token} {rest : List Token}

/-- A scope that is opened at a token, with what is read inside it, up to where it is left. -/
theorem enclose {closed : Arena} (front : before.rest = token :: rest)
    (inner : Extends used (before.enter env kind) middle) (size : closed.scopes.size = middle.arena.scopes.size)
    (names : ∀ {scope name}, closed.named? scope name = middle.arena.named? scope name)
    (leaves : middle.arena.opened = before.arena.scopes.size :: before.arena.opened → before.arena.opened ≠ [] →
      before.arena.scopes.size ∉ before.arena.opened → closed.opened = before.arena.opened) :
    Extends (token :: used) before { middle with arena := closed } where
  rest := by
    have passed := inner.rest
    rw [State.enter, State.advance, front] at passed
    rw [front]
    exact congrArg (token :: ·) passed
  prevEnd := by
    have passed := inner.prevEnd
    rw [State.enter, State.advance, front] at passed
    exact passed
  states := inner.states
  functions := inner.functions
  prototypes := inner.prototypes
  findings := inner.findings
  size := by
    have pushed : before.arena.scopes.size + 1 ≤ middle.arena.scopes.size := by
      have grown := inner.size
      change (before.arena.scopes.push _).size ≤ _ at grown
      rwa [Array.size_push] at grown
    change _ ≤ closed.scopes.size
    omega
  names found := by
    have pushed : (before.enter env kind).arena.named? _ _ = some _ := Arena.named?_push.trans found
    exact names.trans (inner.names pushed)
  opened isOpen := by
    -- The number of the new scope is fresh, so closing up to it stops there.
    refine leaves (inner.opened isOpen.push) isOpen.some fun found => ?_
    exact Nat.lt_irrefl _ (isOpen.lt _ found)

theorem leave (front : before.rest = token :: rest) (inner : Extends used (before.enter env kind) middle) :
    Extends (token :: used) before (middle.leave before.arena.scopes.size) :=
  inner.enclose front Arena.size_popTo Arena.named?_popTo Arena.opened_popTo

end Extends

end ScriptLint.Analysis
