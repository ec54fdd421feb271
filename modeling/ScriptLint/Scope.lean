import ScriptLint.NameMap
import ScriptLint.Signature
import ScriptLint.Text.Span

/-!
# Scopes and declarations

All scopes of a document stand in one list, where a scope's number is its place. Each knows its parent, so a
name is looked up outward from the innermost open scope. A name is visible from its declaration on.
-/

namespace ScriptLint

inductive ScopeKind where
  | global | state | params | block | forHeader
  deriving Repr, DecidableEq

structure Scope where
  id : Nat
  parent : Option Nat
  kind : ScopeKind
  /-- From the token that opens the scope to the one that closes it; an open one reaches to the end. -/
  span : Span
  /-- The declarations made directly in the scope. -/
  names : NameMap Nat
  deriving Repr, DecidableEq

inductive DeclKind where
  | var | param | func | state | event | label
  deriving Repr, DecidableEq

structure Decl where
  id : Nat
  name : String
  kind : DeclKind
  /-- The type of a variable, or what a callable returns. -/
  type : SemType
  params : List Param
  /-- The declared name. -/
  span : Span
  /-- The whole declaration, with the body of a callable. -/
  fullSpan : Span
  scope : Nat
  deriving Repr, DecidableEq

/-- All scopes, and the numbers of those that are open, innermost first. -/
structure Arena where
  scopes : Array Scope
  opened : List Nat
  deriving Repr, DecidableEq, Inhabited

namespace Arena

def globalScope : Nat := 0

def new (length : Nat) : Arena :=
  ⟨#[⟨globalScope, none, .global, ⟨0, length⟩, ∅⟩], [globalScope]⟩

def current (arena : Arena) : Nat :=
  arena.opened.headD globalScope

def get? (arena : Arena) (id : Nat) : Option Scope :=
  arena.scopes[id]?

def push (arena : Arena) (kind : ScopeKind) (start length : Nat) : Arena :=
  let id := arena.scopes.size
  ⟨arena.scopes.push ⟨id, some arena.current, kind, ⟨start, length⟩, ∅⟩, id :: arena.opened⟩

/-- End a scope at an offset, though never before it starts. -/
def close (arena : Arena) (id stop : Nat) : Arena :=
  { arena with
    scopes := arena.scopes.modify id fun scope =>
      { scope with span := ⟨scope.span.start, max stop scope.span.start⟩ } }

/-- Close the innermost scope. The global scope never closes. -/
def pop (arena : Arena) (stop : Nat) : Arena :=
  match arena.opened with
  | id :: outer :: rest => { arena.close id stop with opened := outer :: rest }
  | _ => arena

/-- Close the given open scopes, innermost first, up to and including one of them. -/
def popAll (arena : Arena) (id stop : Nat) : (opened : List Nat) → Arena
  | [] => arena
  | _ :: rest =>
    if arena.opened.length > 1 && arena.opened.contains id then (arena.pop stop).popAll id stop rest
    else arena

/-- Close scopes until one of them is no longer open. -/
def popTo (arena : Arena) (id stop : Nat) : Arena :=
  arena.popAll id stop arena.opened

/-- The declaration of a name in one scope. -/
def named? (arena : Arena) (id : Nat) (name : String) : Option Nat :=
  (arena.get? id).bind fun scope => scope.names.get? name

/-- Declare a name in a scope, unless the scope has it already. -/
def declare (arena : Arena) (id : Nat) (name : String) (decl : Nat) : Arena :=
  { arena with
    scopes := arena.scopes.modify id fun scope =>
      { scope with names := scope.names.insertNew name decl } }

/-- Look a name up from a scope outward, over at most `steps` parents. -/
def lookupFrom (arena : Arena) (name : String) : (steps : Nat) → (id : Nat) → Option Nat
  | 0, id => arena.named? id name
  | steps + 1, id =>
    match arena.named? id name with
    | some decl => some decl
    | none => ((arena.get? id).bind Scope.parent).bind (arena.lookupFrom name steps)

/-- The declaration that a name has in the innermost open scope. A scope's parent comes before it, so there
are fewer parents than scopes. -/
def lookup (arena : Arena) (name : String) : Option Nat :=
  arena.lookupFrom name arena.scopes.size arena.current

def nearest? (arena : Arena) (kind : ScopeKind) : Option Nat :=
  arena.opened.find? fun id => (arena.get? id).any (·.kind == kind)

end Arena

end ScriptLint
