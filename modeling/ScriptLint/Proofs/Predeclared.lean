import ScriptLint.Proofs.DocumentReading

/-!
# Declarations in advance

The light scan of a document gives the items that stand outside all braces, each at one of the tokens. What is declared
for them in advance is there, under its name, when the reading of the document begins.
-/

namespace ScriptLint

open TopLevel List

namespace TopLevel

/-! ## The light scan -/

theorem skipBody_suffix (depth : Nat) (tokens : List Token) : skipBody depth tokens <:+ tokens := by
  fun_induction skipBody depth tokens with
  | case1 => exact suffix_rfl
  | case2 _ _ _ _ ih | case4 _ _ _ _ _ ih | case5 _ _ _ _ _ ih => exact ih.trans (suffix_cons ..)
  | case3 => exact suffix_cons ..

theorem skipStatement_suffix (tokens : List Token) : skipStatement tokens <:+ tokens := by
  fun_induction skipStatement tokens with
  | case1 | case3 => exact suffix_rfl
  | case2 => exact suffix_cons ..
  | case4 _ _ _ _ ih => exact ih.trans (suffix_cons ..)

theorem skipComma_suffix (tokens : List Token) : skipComma tokens <:+ tokens := by
  fun_cases skipComma tokens with
  | case1 | case3 => exact suffix_rfl
  | case2 => exact suffix_cons ..

theorem scanParams_suffix (tokens : List Token) : (scanParams tokens).2 <:+ tokens := by
  fun_induction scanParams tokens with
  | case1 => exact suffix_rfl
  | case2 => exact suffix_cons ..
  | case3 token _ _ name behind _ _ _ _ scanned ih =>
    rw [scanned] at ih
    have skipped := (ih.trans (skipComma_suffix behind)).trans (suffix_cons name behind)
    exact skipped.trans (suffix_cons token _)
  | case4 token _ _ _ _ _ _ ih =>
    exact (ih.trans (skipComma_suffix _)).trans (suffix_cons token _)
  | case5 token _ rest _ ih => exact (ih.trans (skipComma_suffix rest)).trans (suffix_cons token rest)

variable {type : Option SemType}

/-- A name begins a callable in front of a parenthesis, which is an item if a body follows, or a variable behind its
type. -/
theorem readItem_cases {name : Token} {rest after : List Token} {item : Option Item}
    (found : readItem type name rest = some (item, after)) :
    (∃ paren behind, rest = paren :: behind ∧ paren.isPunct "(" ∧ after = (scanParams behind).2 ∧
        item = if after.head?.any (·.isPunct "\x7b") then
          some ⟨.function, name.text, name.span, type, (scanParams behind).1⟩ else none) ∨
      (∃ sign behind, rest = sign :: behind ∧ type.isSome ∧ (sign.isPunct ";" || sign.isOp "=") ∧
        after = skipStatement rest ∧ item = some ⟨.global, name.text, name.span, type, []⟩) := by
  unfold readItem at found
  split at found
  · cases found
  · rename_i next behind
    split at found
    · rename_i opens
      refine .inl ⟨next, behind, rfl, opens, ?_⟩
      dsimp only at found
      split at found
      · rename_i body
        obtain ⟨rfl, rfl⟩ := Prod.mk.inj (Option.some.inj found)
        exact ⟨rfl, by rw [if_pos body]⟩
      · rename_i noBody
        obtain ⟨rfl, rfl⟩ := Prod.mk.inj (Option.some.inj found)
        exact ⟨rfl, by rw [if_neg noBody]⟩
    · split at found
      · rename_i declares
        obtain ⟨typed, sign⟩ := Bool.and_eq_true_iff.mp declares
        obtain ⟨rfl, rfl⟩ := Prod.mk.inj (Option.some.inj found)
        exact .inr ⟨next, behind, rfl, typed, sign, rfl, rfl⟩
      · cases found

theorem readItem_suffix {name : Token} {rest after : List Token} {item : Option Item}
    (found : readItem type name rest = some (item, after)) : after <:+ rest := by
  rcases readItem_cases found with ⟨paren, behind, rfl, _, rfl, _⟩ | ⟨sign, behind, rfl, _, _, rfl, _⟩
  · exact (scanParams_suffix behind).trans (suffix_cons ..)
  · exact skipStatement_suffix _

theorem nameAt?_suffix {token name : Token} {rest behind : List Token}
    (found : nameAt? type token rest = some (name, behind)) : name :: behind <:+ token :: rest := by
  unfold nameAt? at found
  split at found
  · split at found
    · obtain ⟨rfl, rfl⟩ := Prod.mk.inj (Option.some.inj found)
      exact suffix_cons ..
    · cases found
  · cases found
  · split at found
    · obtain ⟨rfl, rfl⟩ := Prod.mk.inj (Option.some.inj found)
      exact suffix_rfl
    · cases found

/-- An item that begins with a name has that name, and is no state. -/
theorem readItem_item {name : Token} {rest after : List Token} {item : Item}
    (found : readItem type name rest = some (some item, after)) :
    item.name = name.text ∧ item.span = name.span ∧ item.kind ≠ .state := by
  rcases readItem_cases found with ⟨paren, behind, _, _, _, made⟩ | ⟨sign, behind, _, _, _, _, made⟩
  · split at made
    · obtain rfl := Option.some.inj made
      exact ⟨rfl, rfl, nofun⟩
    · cases made
  · obtain rfl := Option.some.inj made
    exact ⟨rfl, rfl, nofun⟩

end TopLevel

namespace Analysis

/-- An item stands at one of the tokens. A state stands where states are named. -/
structure ItemAt (all : List Token) (token : Token) (item : TopLevel.Item) : Prop where
  found : token ∈ all
  name : item.name = token.text
  span : item.span = token.span
  state : item.kind = .state → NamesState all token

/-- The items of the light scan stand at tokens. -/
theorem exists_itemAt {all tokens : List Token} (suffix : tokens <:+ all) :
    ∀ item ∈ scan tokens, ∃ token, ItemAt all token item := by
  fun_induction scan tokens with
  | case1 => exact nofun
  | case2 token rest _ ih =>
    exact ih ((skipBody_suffix 0 rest).trans ((suffix_cons token rest).trans suffix))
  | case3 token rest _ isDefault ih =>
    obtain ⟨front, whole⟩ := suffix
    obtain ⟨word, brace⟩ := Bool.and_eq_true_iff.mp isDefault
    refine forall_mem_cons.mpr ⟨⟨token, ?_, rfl, rfl, fun _ => ?_⟩, ih ?_⟩
    · rw [← whole]
      simp
    · exact ⟨front, rest, whole.symm, .inl ⟨word, brace⟩⟩
    · exact (suffix_cons token rest).trans ⟨front, whole⟩
  | case4 => exact nofun
  | case5 token _ word name behind _ _ ih =>
    obtain ⟨front, whole⟩ := suffix
    refine forall_mem_cons.mpr ⟨⟨name, ?_, rfl, rfl, fun _ => ?_⟩, ih ?_⟩
    · rw [← whole]
      simp
    · -- The keyword in front of the name is what shows that a state is meant.
      refine ⟨front ++ [token], behind, ?_, .inr ⟨front, token, rfl, word⟩⟩
      rw [← whole, append_assoc]
      rfl
    · exact ((suffix_cons name behind).trans (suffix_cons token _)).trans ⟨front, whole⟩
  | case6 token _ _ name behind _ _ ih =>
    exact ih (((suffix_cons name behind).trans (suffix_cons token _)).trans suffix)
  | case7 token rest _ _ _ _ ih => exact ih ((suffix_cons token rest).trans suffix)
  | case8 _ _ _ _ _ name behind named _ _ found ih =>
    have named := (nameAt?_suffix named).trans suffix
    obtain ⟨sameName, sameSpan, notState⟩ := readItem_item found
    refine forall_mem_cons.mpr ⟨⟨name, named.subset mem_cons_self, sameName, sameSpan, fun isState => ?_⟩, ?_⟩
    · exact absurd isState notState
    · exact ih ((readItem_suffix found).trans ((suffix_cons name behind).trans named))
  | case9 _ _ _ _ _ name behind named _ found ih =>
    have named := (nameAt?_suffix named).trans suffix
    exact ih ((readItem_suffix found).trans ((suffix_cons name behind).trans named))
  | case10 token rest _ _ _ _ _ _ _ ih => exact ih ((suffix_cons token rest).trans suffix)

/-! ## Steps -/

/-- A declaration is remembered by the offset of its name. -/
def State.await (state : State) (offset id : Nat) : State :=
  { state with prototypes := (offset, id) :: state.prototypes }

/-- A function is declared in advance. -/
def State.draftFunction (state : State) (item : TopLevel.Item) : State :=
  let decl := headerDecl state.decls.size item.name .func (item.type.getD .void) item.params item.span item.span.start
    item.span.stop Arena.globalScope
  { state with
    decls := state.decls.push decl
    arena := state.arena.declare Arena.globalScope item.name state.decls.size
    functions := state.functions.insert item.name state.decls.size
    prototypes := (item.span.start, state.decls.size) :: state.prototypes }

/-- A state is declared in advance. -/
def State.draftState (state : State) (item : TopLevel.Item) : State :=
  let decl := headerDecl state.decls.size item.name .state .void [] item.span item.span.start item.span.stop
    Arena.globalScope
  { state with
    decls := state.decls.push decl
    states := state.states.insert item.name state.decls.size
    prototypes := (item.span.start, state.decls.size) :: state.prototypes }

/-- What becomes of an item before the reading begins. -/
inductive Drafts (env : Env) (item : TopLevel.Item) (before : State) : State → Prop where
  | later (kind : item.kind = .global) : Drafts env item before before
  | handler (kind : item.kind = .function) (event : env.definitions.events.contains item.name = true) :
      Drafts env item before before
  | refused {finding : Finding} (kind : item.kind ≠ .global)
      (code : finding.problem.code = .reservedIdentifier ∨ finding.problem.code = .duplicateDecl) :
      Drafts env item before (before.report finding)
  | function (kind : item.kind = .function) (notEvent : env.definitions.events.contains item.name = false)
      (free : before.arena.named? Arena.globalScope item.name = none) :
      Drafts env item before (before.draftFunction item)
  | state (kind : item.kind = .state) (free : before.states.contains item.name = false) :
      Drafts env item before (before.draftState item)

/-- What becomes of the items, one after the other. -/
inductive Drafted (env : Env) : List TopLevel.Item → State → State → Prop where
  | done (state : State) : Drafted env [] state state
  | more {item : TopLevel.Item} {items : List TopLevel.Item} {before middle after : State}
      (first : Drafts env item before middle) (others : Drafted env items middle after) :
      Drafted env (item :: items) before after

section Drafts

variable {env : Env} {item : TopLevel.Item} {items : List TopLevel.Item} {state : State}

theorem predeclareState_drafts (kind : item.kind = .state) :
    Yields (predeclareState item) state fun _ after => Drafts env item state after := by
  have notGlobal : item.kind ≠ .global := by rw [kind]; decide
  rw [predeclareState]
  split
  · rw [yields_report]
    exact .refused notGlobal (.inl rfl)
  · rw [yields_bind, yields_get]
    split
    · rw [yields_report]
      exact .refused notGlobal (.inr rfl)
    · next free => exact .state kind (Bool.eq_false_iff.mpr free)

theorem predeclareFunction_drafts (kind : item.kind = .function) :
    Yields (predeclareFunction env item) state fun _ after => Drafts env item state after := by
  have notGlobal : item.kind ≠ .global := by rw [kind]; decide
  rw [predeclareFunction]
  split
  · next event => exact .handler kind event
  · rename_i notEvent
    split
    · rw [yields_report]
      exact .refused notGlobal (.inl rfl)
    · rw [yields_bind, yields_nextDecl, yields_bind, bindName, yields_bind, yields_get]
      cases named : state.arena.named? Arena.globalScope item.name with
      | some =>
        exact .refused notGlobal (.inr rfl)
      | none => exact .function kind (Bool.eq_false_iff.mpr notEvent) named

theorem predeclare_drafts : Yields (predeclare env item) state fun _ after => Drafts env item state after := by
  rw [predeclare]
  cases kind : item.kind with
  | state => exact predeclareState_drafts kind
  | function => exact predeclareFunction_drafts kind
  | global => exact .later kind

theorem forM_predeclare_drafted (items : List TopLevel.Item) :
    Yields (items.forM (predeclare env)) state fun _ after => Drafted env items state after := by
  induction items generalizing state with
  | nil => exact .done state
  | cons _ _ ih =>
    rw [List.forM, yields_bind]
    exact predeclare_drafts.mono fun _ middle first => ih.mono fun _ after others => .more first others

/-- A document is read once everything that can be was declared. -/
theorem readDocument_runs (state : State) :
    Yields (readDocument env) state fun _ after => ∃ middle used, Drafted env (scan state.rest) state middle ∧
      Runs (Item env) used middle after ∧ after.rest = [] := by
  rw [readDocument, yields_bind, yields_get, yields_bind]
  refine (forM_predeclare_drafted _).mono fun _ middle drafted => ?_
  rw [yields_bind, yields_remaining]
  exact (readItems_runs env _ (Nat.le_refl _)).mono fun _ after ⟨used, runs, done⟩ =>
    ⟨middle, used, drafted, runs, done⟩

end Drafts

/-! ## Before the reading begins -/

/-- Nothing was read, and what was declared is sound. -/
structure Ready (env : Env) (all : List Token) (stop : Nat) (state : State) : Prop where
  ordered : InOrder 0 stop all
  sound : Sound env all stop none state
  rest : state.rest = all
  opened : state.arena.opened = [Arena.globalScope]

section Ready

variable {env : Env} {all : List Token} {stop : Nat} {before after state : State} {token : Token} {item : TopLevel.Item}
  {items : List TopLevel.Item} {id : Nat} {decl : Decl} {name : String}

theorem Sketch.notLocal (sketch : Sketch env all token decl) : ¬IsLocal decl.kind := by
  rcases sketch.kind with ⟨kind, _⟩ | ⟨kind, _⟩ <;> rw [kind, IsLocal] <;> decide

theorem sketch_headerDecl (env : Env) (stands : ItemAt all token item) (id : Nat) (type : SemType) (params : List Param)
    {kind : DeclKind}
    (fits : kind = .func ∧ env.definitions.events.contains token.text = false ∧ Scanned all token.span ∨
      kind = .state ∧ NamesState all token) :
    Sketch env all token (headerDecl id item.name kind type params item.span item.span.start item.span.stop
      Arena.globalScope) := by
  refine ⟨stands.name, stands.span, ?_, rfl, fits⟩
  rw [headerDecl, Nat.min_self, Nat.max_self, stands.span]

theorem ready_new (ordered : InOrder 0 stop all) : Ready env all stop { rest := all, arena := .new env.length } := by
  refine ⟨ordered, ⟨⟨ordered, Arena.laminar_new env.length, nofun, nofun⟩,
    ⟨nofun, nofun, nofun, fun {scope} _ _ found => ?_⟩,
    fun _ _ _ => nofun, nofun, ⟨fun isOpen other _ => absurd (mem_singleton.mp isOpen) other, nofun, nofun⟩⟩, rfl, rfl⟩
  cases scope <;> cases found

section

variable (ready : Ready env all stop state)

include ready

theorem Ready.retable {prototypes : List (Nat × Nat)} {functions states : NameMap Nat}
    (consistent : Consistent env all { state with functions, states, prototypes })
    (awaiting : Awaiting env all { state with functions, states, prototypes }) :
    Ready env all stop { state with functions, states, prototypes } := by
  obtain ⟨ordered, ⟨placed, _, _, resolves, watched⟩, rest, opened⟩ := ready
  exact ⟨ordered, ⟨⟨placed.ordered, placed.laminar, placed.decls, placed.locals⟩, consistent, awaiting,
    resolves.mono rfl (.of_eq rfl) fun held => held, watched.same rfl rfl rfl rfl⟩, rest, opened⟩

theorem Ready.await (isThere : token ∈ all) (there : state.decls[id]? = some decl)
    (sketch : Sketch env all token decl) : Ready env all stop (state.await token.span.start id) := by
  refine ready.retable (ready.sound.consistent.of_names rfl rfl rfl fun _ _ => rfl) fun other isLeft known found => ?_
  change ((token.span.start, id) :: state.prototypes).lookup other.span.start = some known at found
  rw [lookup_cons] at found
  split at found
  · rename_i same
    obtain rfl := Option.some.inj found
    change other ∈ state.rest at isLeft
    rw [ready.rest] at isLeft
    obtain rfl := ready.ordered.eq_of_start_eq isLeft isThere (beq_iff_eq.mp same)
    exact ⟨decl, there, sketch⟩
  · exact ready.sound.awaiting other isLeft known found

theorem Ready.addFunction (there : state.decls[id]? = some decl) (named : decl.name = name) (kind : decl.kind = .func) :
    Ready env all stop { state with functions := state.functions.insert name id } := by
  have consistent := ready.sound.consistent
  refine ready.retable ⟨consistent.ids, fun found => ?_, consistent.states, consistent.names⟩ ready.sound.awaiting
  rcases NameMap.get?_insert_cases found with ⟨rfl, rfl⟩ | found
  · exact ⟨decl, there, named, .inl kind⟩
  · exact consistent.functions found

theorem Ready.addState (there : state.decls[id]? = some decl) (named : decl.name = name) (kind : decl.kind = .state) :
    Ready env all stop { state with states := state.states.insert name id } := by
  have consistent := ready.sound.consistent
  refine ready.retable ⟨consistent.ids, consistent.functions, fun found => ?_, consistent.names⟩ ready.sound.awaiting
  rcases NameMap.get?_insert_cases found with ⟨rfl, rfl⟩ | found
  · exact ⟨decl, there, named, kind⟩
  · exact consistent.states found

theorem Ready.between : Between env all [] stop 0 state :=
  ⟨⟨ready.rest.symm, .inl rfl, .inr rfl⟩, ready.ordered, ready.sound, fun _ => ready.opened⟩

/-- Every token lies in the global scope. -/
theorem Ready.holds (isThere : token ∈ all) : state.arena.Holds state.prevEnd stop Arena.globalScope token.span := by
  obtain ⟨scope, found, _, _, span⟩ := ready.sound.placed.laminar.global
  have ordered := ready.sound.placed.ordered
  rw [ready.rest] at ordered
  refine ⟨scope, found, ?_, (ordered.inside token isThere).2, absurd rfl, fun notOpen => ?_⟩
  · rw [span]
    exact Nat.zero_le _
  · rw [ready.opened] at notOpen
    exact absurd mem_cons_self notOpen

/-- A declaration of the global scope is added for a token. -/
theorem Ready.addDecl (isThere : token ∈ all) (decl : Decl)
    (numbered : decl.id = state.decls.size) (sketch : Sketch env all token decl) :
    Ready env all stop (state.addDecl decl) := by
  refine ⟨ready.ordered, (ready.sound.addDecl decl numbered ?_ fun isLocal => ?_).1, ready.rest, ready.opened⟩
  · rw [sketch.scope, sketch.span]
    exact ready.holds isThere
  · exact absurd isLocal sketch.notLocal

theorem Ready.bind (there : state.decls[id]? = some decl) (named : decl.name = name)
    (kind : decl.kind ≠ .label) (scope : decl.scope = Arena.globalScope) :
    Ready env all stop { state with arena := state.arena.declare Arena.globalScope name id } := by
  have current : state.arena.current = Arena.globalScope := by
    rw [Arena.current, ready.opened]
    rfl
  refine ⟨ready.ordered, ?_, ready.rest, ready.opened⟩
  rw [← current] at scope ⊢
  exact (ready.sound.bind there named kind scope (absurd current)).1

end

theorem Drafts.ready (drafts : Drafts env item before after) (listed : item ∈ scan all)
    (stands : ItemAt all token item) (ready : Ready env all stop before) : Ready env all stop after := by
  cases drafts with
  | later | handler => exact ready
  | refused =>
    exact ⟨ready.ordered, ready.sound.pass ((Pass.refl before).report _), ready.rest, ready.opened⟩
  | function kind notEvent =>
    rw [stands.name] at notEvent
    have scanned : Scanned all token.span := ⟨item, listed, kind, stands.span⟩
    have sketch := sketch_headerDecl env stands before.decls.size (item.type.getD .void) item.params
      (.inl ⟨rfl, notEvent, scanned⟩)
    have added := ready.addDecl stands.found _ rfl sketch
    have there := getElem?_addDecl_size before (headerDecl before.decls.size item.name .func (item.type.getD .void)
      item.params item.span item.span.start item.span.stop Arena.globalScope)
    -- Only functions are also names of the global scope.
    have bound := added.bind there rfl nofun rfl
    have awaited := (bound.addFunction there rfl rfl).await stands.found there sketch
    rw [← stands.span] at awaited
    exact awaited
  | state kind =>
    have sketch := sketch_headerDecl env stands before.decls.size .void [] (.inr ⟨rfl, stands.state kind⟩)
    have added := ready.addDecl stands.found _ rfl sketch
    have there := getElem?_addDecl_size before (headerDecl before.decls.size item.name .state .void [] item.span
      item.span.start item.span.stop Arena.globalScope)
    have awaited := (added.addState there rfl rfl).await stands.found there sketch
    rw [← stands.span] at awaited
    exact awaited

theorem Drafted.ready (drafted : Drafted env items before after) (listed : items ⊆ scan all)
    (ready : Ready env all stop before) : Ready env all stop after := by
  induction drafted with
  | done => exact ready
  | more first _ ih =>
    obtain ⟨isListed, listed⟩ := cons_subset.mp listed
    obtain ⟨token, stands⟩ := exists_itemAt suffix_rfl _ isListed
    exact ih listed (first.ready isListed stands ready)

end Ready

section Documents

variable {env : Env} {all : List Token} {stop : Nat} (ordered : InOrder 0 stop all)

include ordered

/-- A document is read to its end once everything that can be was declared, which leaves it ready. -/
theorem readDocument_ready :
    Yields (readDocument env) { rest := all, arena := .new env.length } fun _ after => ∃ middle used,
      Drafted env (scan all) { rest := all, arena := .new env.length } middle ∧ Ready env all stop middle ∧
      Runs (Item env) used middle after ∧ after.rest = [] :=
  (readDocument_runs _).mono fun _ _ ⟨middle, used, drafted, runs, done⟩ =>
    ⟨middle, used, drafted, drafted.ready (Subset.refl _) (ready_new ordered), runs, done⟩

/-- What was read is sound at the end of a document. -/
theorem readDocument_sound :
    Yields (readDocument env) { rest := all, arena := .new env.length } fun _ after =>
      Sound env all stop none after ∧ after.arena.opened = [Arena.globalScope] ∧ after.rest = [] := by
  refine (readDocument_ready ordered).mono fun _ after ⟨_, _, _, ready, runs, done⟩ => ?_
  obtain ⟨between, _⟩ := runs.between Item.extends Item.between ready.between
  exact ⟨between.sound, between.opened rfl, done⟩

end Documents

end Analysis

end ScriptLint
