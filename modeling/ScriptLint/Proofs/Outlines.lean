import ScriptLint.Include.Exports
import ScriptLint.Proofs.LightScan

/-!
# What reading an item leaves behind

In a document without errors every piece that is read is an item of the light scan. A function is written as the scan
sees it, a variable is declared in the global scope, and nothing else is declared there.
-/

namespace ScriptLint.Analysis

open TopLevel List

/-! ## Variables of the global scope -/

def IsGlobalVar (decl : Decl) : Prop := decl.kind = .var ∧ decl.scope = Arena.globalScope

/-- No variable of the global scope is added. -/
def AddsLocals (before after : State) : Prop :=
  ∀ (id : Nat) (decl : Decl), after.decls[id]? = some decl → IsGlobalVar decl → before.decls[id]? = some decl

namespace AddsLocals

variable {before middle after state : State}

theorem of_eq (same : after.decls = before.decls) : AddsLocals before after := by
  intro id decl found _
  rwa [← same]

theorem trans (first : AddsLocals before middle) (second : AddsLocals middle after) : AddsLocals before after :=
  fun id decl found isGlobal => first id decl (second id decl found isGlobal) isGlobal

theorem addDecl {decl : Decl} (other : ¬IsGlobalVar decl) : AddsLocals state (state.addDecl decl) := by
  intro id added found isGlobal
  rcases addDecl_cases found with ⟨-, rfl⟩ | found
  · exact absurd isGlobal other
  · exact found

/-- A declaration is written again as what is no variable of the global scope. -/
theorem setDecl {id : Nat} {decl : Decl} (adds : AddsLocals before after) (other : ¬IsGlobalVar decl) :
    AddsLocals before (after.setDecl id fun _ => decl) := by
  intro index written found isGlobal
  rw [getElem?_setDecl] at found
  split at found
  · obtain ⟨_, _, rfl⟩ := Option.map_eq_some_iff.mp found
    exact absurd isGlobal other
  · exact adds index written found isGlobal

/-- The whole span of a declaration is written again. Where it is no local declaration, nothing is added. -/
theorem setFullSpan {id offset : Nat} {full : Span} (adds : AddsLocals before after)
    (keeps : KeepsBefore offset before (after.setDecl id fun decl => { decl with fullSpan := full })) :
    AddsLocals before (after.setDecl id fun decl => { decl with fullSpan := full }) := by
  intro index decl found isGlobal
  have there := found
  rw [getElem?_setDecl] at found
  split at found
  · rename_i same
    subst same
    obtain ⟨old, isOld, rfl⟩ := Option.map_eq_some_iff.mp found
    have earlier := adds id old isOld isGlobal
    have kept := keeps id old earlier (.inr (.inl isGlobal.1))
    rw [← Option.mem_unique kept there]
    exact earlier
  · exact adds index decl found isGlobal

end AddsLocals

theorem IsCallable.not_isGlobalVar {decl : Decl} (callable : IsCallable decl.kind) : ¬IsGlobalVar decl :=
  fun isGlobal => callable.notLocal (.inl isGlobal.1)

section Locals

variable {env : Env} {used : List Token} {before after : State} {kind : DeclKind} {returns : SemType} {name : Token}
  {start id : Nat}

/-- A scope that is opened is not the global one. -/
theorem current_enter (isOpen : before.arena.Open) (kind : ScopeKind) :
    (before.enter env kind).arena.current ≠ Arena.globalScope := by
  obtain ⟨inner, rest, opened⟩ := exists_cons_of_ne_nil isOpen.some
  have there := isOpen.lt inner (by rw [opened]; exact mem_cons_self)
  exact Nat.ne_of_gt (Nat.lt_of_le_of_lt (Nat.zero_le inner) there)

/-- Statements inside a callable declare nothing in the global scope. -/
theorem Body.addsLocals (body : Body env used before after) (isOpen : before.arena.Open)
    (inside : before.arena.current ≠ Arena.globalScope) : AddsLocals before after := by
  induction body with
  | walk walk => exact .of_eq walk.decls
  | trans first _ ihFirst ihSecond =>
    have extends_ := first.extends
    refine (ihFirst isOpen inside).trans (ihSecond (extends_.isOpen isOpen) ?_)
    rwa [Arena.current, extends_.opened isOpen]
  | declare _ _ _ front typed ident value =>
    have whole := (walk_two front typed ident).trans value
    refine (AddsLocals.of_eq whole.decls).trans (.addDecl fun isGlobal => inside ?_)
    rw [← whole.arena]
    exact isGlobal.2
  | label front plain ident =>
    have whole := walk_two front plain ident
    refine (AddsLocals.of_eq whole.decls).trans (.addDecl fun isGlobal => ?_)
    cases isGlobal.1
  | jump front plain ident => exact .of_eq (walk_two front plain ident).decls
  | block front _ _ _ ih | loop front _ _ ih => exact ih isOpen.push (current_enter isOpen _)

theorem Slot.addsLocals (slot : Slot kind returns name start before id after) (callable : IsCallable kind) :
    AddsLocals before after := by
  have added : AddsLocals before (before.addHeader kind returns name start before.arena.current) :=
    .addDecl (IsCallable.not_isGlobalVar callable)
  cases slot with
  | known => exact .of_eq rfl
  | fresh _ made => exact added.trans (.of_eq made.decls)
  | bound => exact added

theorem HeaderRun.addsLocals {params : List Param} {scope : Nat}
    (header : HeaderRun env kind returns name start used before id params scope after) (callable : IsCallable kind)
    (isOpen : before.arena.Open) : AddsLocals before after ∧ after.arena.Open := by
  cases header with
  | mk slot _ _ read =>
    have openChosen := slot.extends.isOpen isOpen
    have adds := read.addsLocals openChosen.push (current_enter openChosen _)
    exact ⟨(slot.addsLocals callable).trans adds, read.extends.isOpen openChosen.push⟩

theorem CallableRun.addsLocals (run : CallableRun env kind returns name start used before after)
    (callable : IsCallable kind) (isOpen : before.arena.Open) : AddsLocals before after := by
  cases run with
  | body header _ _ _ inner _ jumps reported =>
    obtain ⟨adds, openHeaded⟩ := header.addsLocals callable isOpen
    have block := inner.addsLocals openHeaded.push (current_enter openHeaded _)
    have decls := reported.decls.trans jumps.decls
    exact (adds.trans (block.trans (.of_eq decls))).setDecl (IsCallable.not_isGlobalVar callable)
  | missing header skipped =>
    obtain ⟨adds, _⟩ := header.addsLocals callable isOpen
    exact (adds.trans (.of_eq skipped.decls)).setDecl (IsCallable.not_isGlobalVar callable)

theorem Handler.addsLocals (handler : Handler env used before after) (isOpen : before.arena.Open) :
    AddsLocals before after := by
  cases handler with
  | skip pass => exact .of_eq pass.decls
  | handler _ _ _ run => exact run.addsLocals (.inr rfl) isOpen

theorem Runs.addsLocals (runs : Runs (Handler env) used before after) (isOpen : before.arena.Open) :
    AddsLocals before after := by
  induction runs with
  | done => exact .of_eq rfl
  | more first _ ih => exact (first.addsLocals isOpen).trans (ih (first.extends.isOpen isOpen))

theorem StateSlot.addsLocals (slot : StateSlot name before id after) : AddsLocals before after := by
  cases slot with
  | known => exact .of_eq rfl
  | fresh => exact .addDecl fun isGlobal => nomatch isGlobal.1

end Locals

/-! ## Items -/

/-- The kinds of errors that keep a file from having a clear outline. -/
def outlineCodes : List Code := [.malformed, .reservedIdentifier, .duplicateDecl, .eventOutsideState]

/-- Nothing was found that obscures the outline. -/
def State.Quiet (state : State) : Prop := ∀ finding ∈ state.findings.toList, finding.problem.code ∉ outlineCodes

theorem State.Quiet.clean {state : State} (quiet : state.Quiet) : state.Clean := by
  intro finding found malformed
  refine quiet finding found ?_
  rw [malformed]
  decide

theorem State.Quiet.mono {before after : State} (quiet : after.Quiet)
    (findings : before.findings.toList <+: after.findings.toList) : before.Quiet :=
  fun finding found => quiet finding (findings.subset found)

/-- A name that is refused obscures the outline. -/
theorem State.not_quiet_report {finding : Finding} {state : State}
    (code : finding.problem.code = .reservedIdentifier ∨ finding.problem.code = .duplicateDecl) :
    ¬(state.report finding).Quiet := by
  intro quiet
  have isThere : finding ∈ (state.report finding).findings.toList := by simp [State.report]
  refine quiet finding isThere ?_
  rcases code with code | code <;> rw [code] <;> decide

/-- A declaration is as the light scan sees it. -/
structure Offers (item : TopLevel.Item) (decl : Decl) : Prop where
  name : decl.name = item.name
  span : decl.span = item.span
  type : decl.type = item.type.getD (if item.kind == .global then .any else .void)
  params : decl.params = item.params

/-- What reading one item of the light scan does. -/
structure Outlines (env : Env) (item : TopLevel.Item) (before after : State) : Prop
    extends Scans item before after where
  passed : item.span.start < after.prevEnd
  function : item.kind = .function → env.definitions.events.contains item.name = false ∧
    ∀ {id : Nat} {decl : Decl}, before.prototypes.lookup item.span.start = some id → after.decls[id]? = some decl →
      Offers item decl
  locals : item.kind ≠ .global → AddsLocals before after
  global : item.kind = .global → ∃ (id : Nat) (decl : Decl), after.decls[id]? = some decl ∧ IsGlobalVar decl ∧
    Offers item decl ∧ after.arena.named? Arena.globalScope item.name = some id ∧
      ∀ (other : Nat) (found : Decl), after.decls[other]? = some found → IsGlobalVar found →
        before.decls[other]? = some found ∨ found = decl

section Items

variable {env : Env} {all read used : List Token} {stop : Nat} {before after : State}

theorem Extends.passed (extends_ : Extends used before after) (sound : Sound env all stop none before) {token : Token}
    (found : token ∈ used) : token.span.start < after.prevEnd :=
  Nat.lt_of_lt_of_le (sound.placed.passes extends_ found).2.1 (sound.placed.passes extends_ found).2.2

/-- A global variable is declared where the light scan finds one. -/
theorem VariableRun.outlines {typeToken name sign : Token} {type : SemType} {rest : List Token}
    (run : VariableRun type name used (before.advance 2) after)
    (front : before.rest = typeToken :: name :: sign :: rest)
    (typed : typeOf? typeToken = some type) (ident : name.isIdent)
    (declares : (sign.isPunct ";" || sign.isOp "=")) (quiet : after.Quiet)
    (between : Between env all read stop 0 before) :
    Outlines env ⟨.global, name.text, name.span, some type, []⟩ before after := by
  have body : Body env _ before after := run.body front (isBrace_of_typeOf? typed) ident
  have scans := run.scans front typed ident declares quiet.clean
  cases run with
  | @mk _ _ _ middle _ _ full walk made ends =>
    cases made with
    | refused code => exact absurd (quiet.mono ends.findings) (State.not_quiet_report code)
    | made free =>
      have whole := (walk_two front (isBrace_of_typeOf? typed) ident).trans walk
      have current : middle.arena.current = Arena.globalScope := by
        rw [whole.arena, Arena.current, between.opened rfl]
        rfl
      have there : Arena.globalScope < middle.arena.scopes.size := by
        rw [whole.arena]
        exact between.sound.placed.laminar.isOpen.lt _ (by rw [between.opened rfl]; exact mem_cons_self)
      let decl : Decl := ⟨middle.decls.size, name.text, .var, type, [], name.span, full, middle.arena.current⟩
      have decls : after.decls = (middle.addDecl decl).decls := ends.decls
      have arena : after.arena = middle.arena.declare middle.arena.current name.text middle.decls.size := ends.arena
      refine ⟨scans, body.extends.passed between.sound (by simp), fun isFunction => ?_, absurd rfl, fun _ =>
        ⟨middle.decls.size, decl, ?_, ⟨rfl, current⟩, ⟨rfl, rfl, rfl, rfl⟩, ?_, fun other found isThere _ => ?_⟩⟩
      · cases isFunction
      · rw [decls]
        exact getElem?_addDecl_size middle decl
      · rw [current] at free arena
        rw [arena]
        exact Arena.named?_declare_self there free
      · rw [decls] at isThere
        exact (addDecl_cases isThere).symm.imp (whole.decls ▸ ·) And.right

/-- A function outside all states is written as the light scan sees it. -/
theorem CallableRun.outlines {lead : List Token} {ready : State} {type : Option SemType} {name : Token}
    {kind : DeclKind}
    {start : Nat} (run : CallableRun env kind (type.getD .void) name start used ready after)
    (led : CallableLead type lead name start) (passed : Pass (lead ++ [name]) before ready)
    (outside : OutsideStates env kind name ready) (quiet : after.Quiet) (sound : Sound env all stop none before) :
    ∃ params, Outlines env ⟨.function, name.text, name.span, type, params⟩ before after := by
  obtain ⟨params, scans, id, chosen, last, ends, slot, written⟩ := run.scans led passed quiet.clean
  have extends_ := (Extends.pass passed).trans run.extends
  have isFunction : kind = .func ∧ env.definitions.events.contains name.text = false := by
    refine outside.resolve_right fun ⟨_, _, reported⟩ => ?_
    exact quiet _ (run.extends.findings.subset reported) (show Code.eventOutsideState ∈ outlineCodes by decide)
  refine ⟨params, scans, extends_.passed sound (by simp), fun _ => ⟨isFunction.2, fun {known decl} waits found => ?_⟩,
    fun _ => ?_, nofun⟩
  · have awaited : ready.prototypes.lookup name.span.start = some known := by
      rw [show ready.prototypes = before.prototypes from congrArg Declared.prototypes passed.declared]
      exact waits
    obtain rfl : id = known := by
      cases slot with
      | known isKnown => exact Option.mem_unique isKnown awaited
      | fresh new | bound new => cases new.symm.trans awaited
    rw [written, getElem?_setDecl, if_pos rfl] at found
    obtain ⟨_, _, rfl⟩ := Option.map_eq_some_iff.mp found
    exact ⟨rfl, rfl, rfl, rfl⟩
  · have adds := run.addsLocals (.inl isFunction.1) ((Extends.pass passed).isOpen sound.placed.laminar.isOpen)
    exact (AddsLocals.of_eq passed.decls).trans adds

/-- What is read without errors is an item of the light scan. -/
theorem Item.outlines (item : Item env used before after) (quiet : after.Quiet)
    (between : Between env all read stop 0 before) : ∃ found, Outlines env found before after := by
  have extends_ := item.extends
  obtain ⟨_, keeps⟩ := item.between between
  have sound := between.sound
  cases item with
  | skip _ broken => exact absurd quiet.clean broken
  | «variable» front typed ident behind run => exact ⟨_, run.outlines front typed ident behind quiet between⟩
  | callable led passed outside run =>
    obtain ⟨params, outlines⟩ := run.outlines led passed outside quiet sound
    exact ⟨_, outlines⟩
  | state led passed slot front opens handlers ends =>
    have openReady := (Extends.pass passed).isOpen sound.placed.laminar.isOpen
    have openChosen := slot.extends.isOpen openReady
    have adds := (AddsLocals.of_eq passed.decls).trans (slot.addsLocals.trans (handlers.addsLocals openChosen.push))
    exact ⟨_, scans_state led passed slot front opens handlers ends rfl, extends_.passed sound (by simp), nofun,
      fun _ => adds.setFullSpan keeps, nofun⟩
  | stateless _ _ _ _ broken => exact absurd quiet.clean broken

/-! ## Documents -/

/-- What reading a list of items has done. -/
structure Outlined (env : Env) (items : List TopLevel.Item) (before after : State) : Prop where
  functions : ∀ item ∈ items, item.kind = .function → env.definitions.events.contains item.name = false ∧
    ∀ {id : Nat}, before.prototypes.lookup item.span.start = some id → before.functions.get? item.name = some id →
      ∃ decl, after.decls[id]? = some decl ∧ Offers item decl
  globals : ∀ item ∈ items, item.kind = .global → ∃ (id : Nat) (decl : Decl), after.decls[id]? = some decl ∧
    IsGlobalVar decl ∧ Offers item decl ∧ after.arena.named? Arena.globalScope item.name = some id
  only : ∀ {id : Nat} {decl : Decl}, after.decls[id]? = some decl → IsGlobalVar decl →
    before.decls[id]? = some decl ∨ ∃ item ∈ items, item.kind = .global ∧ Offers item decl

theorem Outlines.outlined {middle : State} {item : TopLevel.Item} {items : List TopLevel.Item}
    (first : Outlines env item before middle) (extends_ : Extends used before middle)
    (sound : Sound env all stop none middle) (others : Outlined env items middle after)
    (names : ∀ {scope name id}, middle.arena.named? scope name = some id →
      after.arena.named? scope name = some id)
    (keeps : KeepsBefore middle.prevEnd middle after) : Outlined env (item :: items) before after := by
  refine ⟨forall_mem_cons.mpr ⟨fun isFunction => ?_, ?_⟩, forall_mem_cons.mpr ⟨fun isGlobal => ?_, others.globals⟩,
    fun {id decl} found isGlobal => ?_⟩
  · obtain ⟨notEvent, offers⟩ := first.function isFunction
    refine ⟨notEvent, fun {id} waits known => ?_⟩
    -- What is read later starts behind the item and does not write its declaration again.
    rw [← extends_.functions] at known
    obtain ⟨decl, there, _⟩ := sound.consistent.functions known
    have offered := offers waits there
    refine ⟨decl, keeps id decl there (.inl ?_), offered⟩
    rw [offered.span]
    exact first.passed
  · rw [← extends_.functions, ← extends_.prototypes]
    exact others.functions
  · obtain ⟨id, decl, there, global, offered, named, _⟩ := first.global isGlobal
    exact ⟨id, decl, keeps id decl there (.inr (.inl global.1)), global, offered, names named⟩
  · rcases others.only found isGlobal with there | ⟨other, isThere, rest⟩
    · by_cases kind : item.kind = .global
      · obtain ⟨_, new, _, _, offered, _, only⟩ := first.global kind
        rcases only id decl there isGlobal with earlier | rfl
        · exact .inl earlier
        · exact .inr ⟨item, mem_cons_self, kind, offered⟩
      · exact .inl (first.locals kind id decl there isGlobal)
    · exact .inr ⟨other, mem_cons_of_mem _ isThere, rest⟩

/-- A document without errors is read item by item as the light scan sees it. -/
theorem Runs.outlined (runs : Runs (Item env) used before after) (done : after.rest = []) (quiet : after.Quiet)
    (between : Between env all read stop 0 before) : Outlined env (scan before.rest) before after := by
  induction runs generalizing read with
  | done =>
    rw [done, scan.eq_def]
    exact ⟨nofun, nofun, fun found _ => .inl found⟩
  | more first others ih =>
    have onward := Runs.extends Item.extends others
    obtain ⟨item, outlines⟩ := first.outlines (quiet.mono onward.findings) between
    obtain ⟨middle, _⟩ := first.between between
    obtain ⟨_, keeps⟩ := others.between Item.extends Item.between middle
    rw [outlines.scan]
    exact outlines.outlined first.extends middle.sound (ih done quiet middle) onward.names keeps

end Items

end ScriptLint.Analysis
