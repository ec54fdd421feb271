import ScriptLint.Proofs.ScopeTree

/-!
# Names lead to their declarations

The tables of functions and states and the names of a scope give numbers of declarations. What stands there has the
name, and a place where it can be. A declaration that was made in advance waits for its name to be read and is written
again then, as what was found there.
-/

namespace ScriptLint.Analysis

/-! ## Declarations made in advance -/

/-- A token names a state: it is `default` in front of a brace, or it stands behind the word `state`. -/
def NamesState (all : List Token) (token : Token) : Prop :=
  ∃ front behind, all = front ++ token :: behind ∧
    (token.isWord "default" = true ∧ behind.head?.any (·.isPunct "\x7b") = true ∨
      ∃ earlier word, front = earlier ++ [word] ∧ word.isWord "state" = true)

/-- The light scan finds a function whose name stands at a span. -/
def Scanned (all : List Token) (span : Span) : Prop :=
  ∃ item ∈ TopLevel.scan all, item.kind = .function ∧ item.span = span

/-- What is declared in advance for a name: a function, unless events are called so, or a state. -/
structure Sketch (env : Env) (all : List Token) (token : Token) (decl : Decl) : Prop where
  name : decl.name = token.text
  span : decl.span = token.span
  fullSpan : decl.fullSpan = token.span
  scope : decl.scope = Arena.globalScope
  kind : decl.kind = .func ∧ env.definitions.events.contains token.text = false ∧ Scanned all token.span ∨
    decl.kind = .state ∧ NamesState all token

/-- A declaration made in advance for a token is there. -/
def Sketched (env : Env) (all : List Token) (state : State) (token : Token) : Prop :=
  ∀ id, state.prototypes.lookup token.span.start = some id →
    ∃ decl, state.decls[id]? = some decl ∧ Sketch env all token decl

/-- The declarations made in advance for what is left to read are there. -/
def Awaiting (env : Env) (all : List Token) (state : State) : Prop := ∀ token ∈ state.rest, Sketched env all state token

/-- Declarations are only added. -/
def Keeps (before after : State) : Prop :=
  ∀ (id : Nat) (decl : Decl), before.decls[id]? = some decl → after.decls[id]? = some decl

theorem Keeps.trans {before middle after : State} (first : Keeps before middle) (second : Keeps middle after) :
    Keeps before after :=
  fun id decl found => second id decl (first id decl found)

theorem Keeps.of_eq {before after : State} (same : after.decls = before.decls) : Keeps before after := by
  intro id decl found
  rwa [same]

theorem keeps_addDecl (state : State) (decl : Decl) : Keeps state (state.addDecl decl) := by
  intro id old found
  rw [getElem?_addDecl, if_neg (Nat.ne_of_lt (Array.getElem?_eq_some_iff.mp found).1), found]

theorem getElem?_addDecl_size (state : State) (decl : Decl) :
    (state.addDecl decl).decls[state.decls.size]? = some decl := by
  rw [getElem?_addDecl, if_pos rfl]

section Sketches

variable {env : Env} {all : List Token} {before after state : State} {token : Token}

theorem Sketched.mono (sketched : Sketched env all before token) (prototypes : after.prototypes = before.prototypes)
    (keeps : Keeps before after) : Sketched env all after token := by
  intro id found
  rw [prototypes] at found
  obtain ⟨decl, there, sketch⟩ := sketched id found
  exact ⟨decl, keeps id decl there, sketch⟩

theorem Awaiting.mono (awaiting : Awaiting env all before) (rest : after.rest ⊆ before.rest)
    (prototypes : after.prototypes = before.prototypes) (keeps : Keeps before after) : Awaiting env all after :=
  fun token found => (awaiting token (rest found)).mono prototypes keeps

/-- A declaration whose name was passed is awaited by none of the names that are left. -/
theorem Awaiting.setDecl {id : Nat} {old : Decl} {change : Decl → Decl} (awaiting : Awaiting env all state)
    (there : state.decls[id]? = some old) (passed : ∀ token ∈ state.rest, old.span.start < token.span.start) :
    Awaiting env all (state.setDecl id change) := by
  intro token isLeft other found
  obtain ⟨decl, isThere, sketch⟩ := awaiting token isLeft other found
  refine ⟨decl, ?_, sketch⟩
  rw [getElem?_setDecl, if_neg, isThere]
  rintro rfl
  obtain rfl := Option.mem_unique isThere there
  have later := passed token isLeft
  rw [sketch.span] at later
  exact Nat.lt_irrefl _ later

end Sketches

/-! ## Tables -/

/-- A handler inside braces, for an event that is not known, which the light scan took for a function. It can, because
it does not see braces inside a parameter list. -/
structure Astray (definitions : Definitions) (all : List Token) (decl : Decl) : Prop where
  kind : decl.kind = .event
  unknown : definitions.events.contains decl.name = false
  scanned : Scanned all decl.span
  inside : 0 < braceDepth 0 (all.takeWhile fun token => token.span.start < decl.span.start)

/-- Every name in a table or in a scope leads to a declaration of that name. -/
structure Consistent (env : Env) (all : List Token) (state : State) : Prop where
  ids : ∀ {id : Nat} {decl : Decl}, state.decls[id]? = some decl → decl.id = id
  functions : ∀ {name : String} {id : Nat}, state.functions.get? name = some id →
    ∃ decl, state.decls[id]? = some decl ∧ decl.name = name ∧ (decl.kind = .func ∨ Astray env.definitions all decl)
  states : ∀ {name : String} {id : Nat}, state.states.get? name = some id →
    ∃ decl, state.decls[id]? = some decl ∧ decl.name = name ∧ decl.kind = .state
  names : ∀ {scope : Nat} {name : String} {id : Nat}, state.arena.named? scope name = some id →
    ∃ decl, state.decls[id]? = some decl ∧ decl.name = name ∧ decl.kind ≠ .label ∧
      (decl.scope = scope ∨ scope = Arena.globalScope ∧ Astray env.definitions all decl)

/-- A declaration is written again for the same name. It keeps its kind and its scope, or it was made in advance for a
function and is a handler inside braces. It does not get shorter. -/
structure Refits (env : Env) (all : List Token) (old new : Decl) : Prop where
  id : new.id = old.id
  name : new.name = old.name
  span : new.span = old.span
  notLocal : ¬IsLocal old.kind
  kind : new.kind = old.kind ∧ new.scope = old.scope ∨
    old.kind = .func ∧ old.scope = Arena.globalScope ∧ Astray env.definitions all new
  covers : new.fullSpan.start ≤ old.fullSpan.start ∧ old.fullSpan.stop ≤ new.fullSpan.stop

theorem Refits.notLocal_new {env : Env} {all : List Token} {old new : Decl} (refits : Refits env all old new) :
    ¬IsLocal new.kind := by
  rcases refits.kind with ⟨same, _⟩ | ⟨_, _, astray⟩
  · rw [same]
    exact refits.notLocal
  · rw [astray.kind, IsLocal]
    decide

theorem Refits.astray {env : Env} {all : List Token} {old new : Decl} (refits : Refits env all old new)
    (same : new.kind = old.kind) (astray : Astray env.definitions all old) : Astray env.definitions all new where
  kind := same.trans astray.kind
  unknown := by
    rw [refits.name]
    exact astray.unknown
  scanned := by
    rw [refits.span]
    exact astray.scanned
  inside := by
    rw [refits.span]
    exact astray.inside

namespace Consistent

variable {env : Env} {all : List Token} {before after state : State}

/-- Opening and closing scopes declares nothing. -/
theorem of_names (consistent : Consistent env all before) (decls : after.decls = before.decls)
    (functions : after.functions = before.functions) (states : after.states = before.states)
    (names : ∀ scope name, after.arena.named? scope name = before.arena.named? scope name) :
    Consistent env all after := by
  refine ⟨?_, ?_, ?_, ?_⟩
  · rw [decls]
    exact consistent.ids
  · rw [decls, functions]
    exact consistent.functions
  · rw [decls, states]
    exact consistent.states
  · intro scope name id found
    rw [names] at found
    rw [decls]
    exact consistent.names found

theorem of_declared (consistent : Consistent env all before) (same : after.declared = before.declared) :
    Consistent env all after :=
  consistent.of_names (congrArg Declared.decls same) (congrArg Declared.functions same)
    (congrArg Declared.states same) fun _ _ => by rw [show after.arena = before.arena from congrArg Declared.arena same]

theorem within (consistent : Consistent env all state) (callable : Option Callable) :
    Consistent env all (state.within callable) :=
  ⟨consistent.ids, consistent.functions, consistent.states, consistent.names⟩

variable (consistent : Consistent env all state)

include consistent

theorem addDecl {decl : Decl} (numbered : decl.id = state.decls.size) : Consistent env all (state.addDecl decl) := by
  have keeps := keeps_addDecl state decl
  refine ⟨fun found => ?_, fun found => ?_, fun found => ?_, fun found => ?_⟩
  · rcases addDecl_cases found with ⟨rfl, rfl⟩ | found
    · exact numbered
    · exact consistent.ids found
  · obtain ⟨old, there, rest⟩ := consistent.functions found
    exact ⟨old, keeps _ old there, rest⟩
  · obtain ⟨old, there, rest⟩ := consistent.states found
    exact ⟨old, keeps _ old there, rest⟩
  · obtain ⟨old, there, rest⟩ := consistent.names found
    exact ⟨old, keeps _ old there, rest⟩

theorem bind {name : String} {id : Nat} {decl : Decl}
    (there : state.decls[id]? = some decl) (named : decl.name = name) (kind : decl.kind ≠ .label)
    (scope : decl.scope = state.arena.current) : Consistent env all (state.bind name id) := by
  refine ⟨consistent.ids, consistent.functions, consistent.states, fun found => ?_⟩
  rcases Arena.named?_declare found with old | ⟨rfl, rfl, rfl⟩
  · exact consistent.names old
  · exact ⟨decl, there, named, kind, .inl scope⟩

theorem setDecl {id : Nat} {old : Decl} {change : Decl → Decl}
    (there : state.decls[id]? = some old) (refits : Refits env all old (change old)) :
    Consistent env all (state.setDecl id change) := by
  refine ⟨fun {other decl} found => ?_, fun found => exists_setDecl there ?_ (consistent.functions found),
    fun found => exists_setDecl there ?_ (consistent.states found),
    fun found => exists_setDecl there ?_ (consistent.names found)⟩
  · rcases setDecl_cases there found with ⟨rfl, rfl⟩ | ⟨-, found⟩
    · exact refits.id.trans (consistent.ids there)
    · exact consistent.ids found
  · rintro ⟨named, kind⟩
    refine ⟨refits.name.trans named, ?_⟩
    rcases refits.kind with ⟨same, _⟩ | ⟨_, _, astray⟩
    · exact kind.imp same.trans (refits.astray same)
    · exact .inr astray
  · rintro ⟨named, kind⟩
    refine ⟨refits.name.trans named, ?_⟩
    rcases refits.kind with ⟨same, _⟩ | ⟨isFunction, _, _⟩
    · exact same.trans kind
    · rw [kind] at isFunction
      cases isFunction
  · rintro ⟨named, notLabel, scope⟩
    refine ⟨refits.name.trans named, fun label => refits.notLocal_new (.inr (.inr label)), ?_⟩
    rcases refits.kind with ⟨sameKind, sameScope⟩ | ⟨isFunction, outside, astray⟩
    · exact scope.imp sameScope.trans fun ⟨global, astray⟩ => ⟨global, refits.astray sameKind astray⟩
    · refine .inr ⟨?_, astray⟩
      rcases scope with same | ⟨global, _⟩
      · exact same.symm.trans outside
      · exact global

end Consistent

end ScriptLint.Analysis
