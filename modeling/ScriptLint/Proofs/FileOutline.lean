import ScriptLint.Proofs.AnalyzedDocument
import ScriptLint.Proofs.Outlines

/-!
# A file looks the same from outside and inside

What a file exports is found by the light scan, and what it declares by reading it. When nothing obscures its outline
the two agree: on the functions with their types and parameters, on the variables of the global scope, and on the
states.
-/

namespace ScriptLint

open Text Analysis TopLevel List

/-! ## Exports -/

namespace Exports

/-- The exports of a kind. -/
def table (exported : Exports) : TopLevel.Kind → NameMap Export
  | .function => exported.functions
  | .global => exported.globals
  | .state => exported.states

theorem table_add (exported : Exports) (added : Export) (kind : TopLevel.Kind) :
    (exported.add added).table kind =
      if added.kind = kind then (exported.table kind).insertNew added.name added else exported.table kind := by
  rw [add]
  cases added.kind <;> cases kind <;> rfl

/-- The first item of a name is exported. -/
theorem get?_table_foldl (file : Path) (items : List TopLevel.Item) (exported : Exports) (kind : TopLevel.Kind)
    (name : String) :
    (((items.map (ofItem file)).foldl add exported).table kind).get? name =
      ((exported.table kind).get? name).or
        ((items.find? fun item => item.kind == kind && item.name == name).map (ofItem file)) := by
  induction items generalizing exported with
  | nil => simp
  | cons item _ ih =>
    rw [map_cons, foldl_cons, ih, table_add]
    have kept : (ofItem file item).kind = item.kind ∧ (ofItem file item).name = item.name := ⟨rfl, rfl⟩
    rw [kept.1, kept.2]
    rw [find?_cons]
    cases isFirst : item.kind == kind && item.name == name with
    | true =>
      obtain ⟨sameKind, sameName⟩ := Bool.and_eq_true_iff.mp isFirst
      rw [if_pos (eq_of_beq sameKind), NameMap.get?_insertNew, if_pos (eq_of_beq sameName), eq_of_beq sameName]
      cases (exported.table kind).get? name <;> rfl
    | false =>
      have untouched : (if item.kind = kind then (exported.table kind).insertNew item.name (ofItem file item)
          else exported.table kind).get? name = (exported.table kind).get? name := by
        split
        · rename_i sameKind
          rw [NameMap.get?_insertNew, if_neg]
          intro sameName
          simp [sameKind, sameName] at isFirst
        · rfl
      rw [untouched]

theorem get?_table_ofText (text : List Char) (disabled : List Span) (file : Path) (kind : TopLevel.Kind)
    (name : String) :
    ((ofText text disabled file).table kind).get? name =
      ((scan ((tokenize text disabled).tokens.filter fun token => !token.isTrivia)).find? fun item =>
        item.kind == kind && item.name == name).map (ofItem file) := by
  rw [ofText, get?_table_foldl]
  cases kind <;> rfl

section Items

variable {text : List Char} {disabled : List Span} {file : Path} {kind : TopLevel.Kind} {name : String}

theorem exists_item {offered : Export} (found : ((ofText text disabled file).table kind).get? name = some offered) :
    ∃ item ∈ scan ((tokenize text disabled).tokens.filter fun token => !token.isTrivia),
      item.kind = kind ∧ item.name = name ∧ ofItem file item = offered := by
  rw [get?_table_ofText] at found
  obtain ⟨item, isFirst, rfl⟩ := Option.map_eq_some_iff.mp found
  have fits := find?_some isFirst
  obtain ⟨sameKind, sameName⟩ := Bool.and_eq_true_iff.mp fits
  exact ⟨item, mem_of_find?_eq_some isFirst, eq_of_beq sameKind, eq_of_beq sameName, rfl⟩

theorem isSome_table : (((ofText text disabled file).table kind).get? name).isSome ↔
    ∃ item ∈ scan ((tokenize text disabled).tokens.filter fun token => !token.isTrivia),
      item.kind = kind ∧ item.name = name := by
  rw [get?_table_ofText, Option.isSome_map]
  simp

end Items

end Exports

/-! ## Order of items -/

/-- The items of the light scan come in the order of their names. -/
theorem TopLevel.scan_pairwise {start stop : Nat} {tokens : List Token} (ordered : InOrder start stop tokens) :
    (scan tokens).Pairwise fun item later => item.span.start < later.span.start := by
  -- What is found behind a token starts behind it.
  have behind {start : Nat} {token : Token} {rest after : List Token} (ordered : InOrder start stop (token :: rest))
      (suffix : after <:+ rest) : ∀ item ∈ scan after, token.span.start < item.span.start := by
    intro item found
    obtain ⟨other, stands⟩ := exists_itemAt suffix item found
    rw [stands.span]
    exact Nat.lt_of_lt_of_le (ordered.filled token mem_cons_self) (ordered.tail.inside other stands.found).1
  fun_induction scan tokens generalizing start with
  | case1 => exact .nil
  | case2 token rest _ ih =>
    obtain ⟨first, ordered⟩ := ordered.suffix ((skipBody_suffix 0 rest).trans (suffix_cons token rest))
    exact ih ordered
  | case3 _ _ _ _ ih => exact .cons (behind ordered suffix_rfl) (ih ordered.tail)
  | case4 => exact .nil
  | case5 _ _ _ _ _ _ _ ih => exact .cons (behind ordered.tail suffix_rfl) (ih ordered.tail.tail)
  | case6 _ _ _ _ _ _ _ ih => exact ih ordered.tail.tail
  | case7 _ _ _ _ _ _ ih => exact ih ordered.tail
  | case8 _ _ _ _ _ _ _ named _ _ found ih =>
    obtain ⟨first, ordered⟩ := ordered.suffix (nameAt?_suffix named)
    have suffix := readItem_suffix found
    obtain ⟨_, span, _⟩ := readItem_item found
    obtain ⟨second, orderedAfter⟩ := ordered.tail.suffix suffix
    refine .cons ?_ (ih orderedAfter)
    rw [span]
    exact behind ordered suffix
  | case9 _ _ _ _ _ _ _ named _ found ih =>
    obtain ⟨first, ordered⟩ := ordered.suffix (nameAt?_suffix named)
    obtain ⟨second, orderedAfter⟩ := ordered.tail.suffix (readItem_suffix found)
    exact ih orderedAfter
  | case10 _ _ _ _ _ _ _ _ _ ih => exact ih ordered.tail

/-! ## Declarations in advance -/

namespace Analysis

/-- The names of the functions are bound in the global scope. -/
structure Bound (state : State) : Prop where
  there : Arena.globalScope < state.arena.scopes.size
  named : ∀ {name id}, state.functions.get? name = some id →
    ∃ bound, state.arena.named? Arena.globalScope name = some bound

section Drafts

variable {env : Env} {item : TopLevel.Item} {items : List TopLevel.Item} {before after : State} {name : String}
  {id offset : Nat}

section

variable (drafts : Drafts env item before after)

include drafts

theorem Drafts.bound (bound : Bound before) : Bound after := by
  cases drafts with
  | later | handler => exact bound
  | refused | state => exact ⟨bound.there, bound.named⟩
  | function _ _ free =>
    refine ⟨?_, fun {name id} found => ?_⟩
    · exact Nat.lt_of_lt_of_eq bound.there Arena.size_declare.symm
    · change (before.functions.insert item.name before.decls.size).get? name = some id at found
      rcases NameMap.get?_insert_cases found with ⟨rfl, rfl⟩ | found
      · exact ⟨_, Arena.named?_declare_self bound.there free⟩
      · obtain ⟨earlier, named⟩ := bound.named found
        exact ⟨earlier, Arena.named?_declare_of_named named⟩

/-- A function that was declared stays in the table. -/
theorem Drafts.get?_functions (bound : Bound before)
    (found : before.functions.get? name = some id) : after.functions.get? name = some id := by
  cases drafts with
  | later | handler | refused | state => exact found
  | function _ _ free =>
    change (before.functions.insert item.name before.decls.size).get? name = some id
    rw [NameMap.get?_insert, if_neg, found]
    rintro rfl
    obtain ⟨earlier, named⟩ := bound.named found
    cases free.symm.trans named

theorem Drafts.lookup_prototypes
    (found : before.prototypes.lookup offset = some id) (other : item.span.start ≠ offset) :
    after.prototypes.lookup offset = some id := by
  cases drafts with
  | later | handler | refused => exact found
  | function | state =>
    change ((item.span.start, before.decls.size) :: before.prototypes).lookup offset = some id
    rw [lookup_cons, beq_eq_false_iff_ne.mpr other.symm]
    exact found

theorem Drafts.findings : before.findings.toList <+: after.findings.toList := by
  cases drafts with
  | later | handler | function | state => exact prefix_rfl
  | refused => exact ((Pass.refl before).report _).findings

end

variable (drafted : Drafted env items before after)

include drafted

theorem Drafted.findings : before.findings.toList <+: after.findings.toList := by
  induction drafted with
  | done => exact prefix_rfl
  | more first _ ih => exact first.findings.trans ih

theorem Drafted.keeps (bound : Bound before)
    (known : before.functions.get? name = some id) (waits : before.prototypes.lookup offset = some id)
    (later : ∀ item ∈ items, offset < item.span.start) :
    after.functions.get? name = some id ∧ after.prototypes.lookup offset = some id := by
  induction drafted with
  | done => exact ⟨known, waits⟩
  | more first _ ih =>
    obtain ⟨behind, later⟩ := forall_mem_cons.mp later
    exact ih (first.bound bound) (first.get?_functions bound known)
      (first.lookup_prototypes waits (Nat.ne_of_gt behind)) later

/-- When nothing was refused, every function is in the table and waits for its name. -/
theorem Drafted.functions (quiet : after.Quiet) (bound : Bound before)
    (inOrder : items.Pairwise fun item later => item.span.start < later.span.start)
    (notEvents : ∀ item ∈ items, item.kind = .function → env.definitions.events.contains item.name = false) :
    ∀ item ∈ items, item.kind = .function →
      ∃ id, after.prototypes.lookup item.span.start = some id ∧ after.functions.get? item.name = some id := by
  induction drafted with
  | done => exact nofun
  | @more item _ before _ _ first others ih =>
    obtain ⟨later, inOrder⟩ := pairwise_cons.mp inOrder
    obtain ⟨notEvent, notEvents⟩ := forall_mem_cons.mp notEvents
    refine forall_mem_cons.mpr ⟨fun isFunction => ?_, ih quiet (first.bound bound) inOrder notEvents⟩
    have boundMiddle := first.bound bound
    cases first with
    | later kind => cases isFunction.symm.trans kind
    | state kind => cases isFunction.symm.trans kind
    | handler _ event => cases (notEvent isFunction).symm.trans event
    | refused _ code => exact absurd (quiet.mono others.findings) (State.not_quiet_report code)
    | function =>
      have inserted : (before.functions.insert item.name before.decls.size).get? item.name =
          some before.decls.size := by
        rw [NameMap.get?_insert, if_pos rfl]
      obtain ⟨known, waits⟩ := others.keeps boundMiddle inserted lookup_cons_self later
      exact ⟨_, waits, known⟩

/-- Only functions of the light scan are in the table. -/
theorem Drafted.exists_function
    (found : after.functions.get? name = some id) :
    before.functions.get? name = some id ∨ ∃ item ∈ items, item.kind = .function ∧ item.name = name := by
  induction drafted with
  | done => exact .inl found
  | @more item _ before _ _ first _ ih =>
    rcases ih found with known | ⟨other, isThere, rest⟩
    · cases first with
      | later | handler | refused | state => exact .inl known
      | function kind =>
        change (before.functions.insert item.name before.decls.size).get? name = some id at known
        refine (NameMap.get?_insert_cases known).symm.imp_right fun new => ?_
        exact ⟨item, mem_cons_self, kind, new.1⟩
    · exact .inr ⟨other, mem_cons_of_mem _ isThere, rest⟩

/-- When nothing was refused, the table has the states of the light scan. -/
theorem Drafted.isSome_states (quiet : after.Quiet) (name : String) :
    (after.states.get? name).isSome ↔
      (before.states.get? name).isSome ∨ ∃ item ∈ items, item.kind = .state ∧ item.name = name := by
  induction drafted with
  | done => simp
  | @more item _ before _ _ first others ih =>
    simp only [ih quiet, mem_cons, or_and_right, exists_or, exists_eq_left, ← or_assoc]
    refine or_congr ?_ Iff.rfl
    have other (kind : item.kind ≠ .state) : ¬(item.kind = .state ∧ item.name = name) := fun both => kind both.1
    cases first with
    | later kind | handler kind | function kind =>
      exact (or_iff_left (other (by rw [kind]; decide))).symm
    | refused _ code => exact absurd (quiet.mono others.findings) (State.not_quiet_report code)
    | state kind =>
      change ((before.states.insert item.name before.decls.size).get? name).isSome ↔ _
      rw [NameMap.get?_insert]
      by_cases same : item.name = name
      · simp [same, kind]
      · simp [same]

/-- Variables are not declared in advance. -/
theorem Drafted.addsLocals : AddsLocals before after := by
  induction drafted with
  | done => exact .of_eq rfl
  | more first _ ih =>
    refine AddsLocals.trans ?_ ih
    cases first with
    | later | handler | refused => exact .of_eq rfl
    | function | state => exact AddsLocals.addDecl fun isGlobal => nomatch isGlobal.1

end Drafts

end Analysis

/-! ## Agreement -/

/-- An export says what a declaration says. -/
structure Matches (offered : Export) (decl : Decl) : Prop where
  name : offered.name = decl.name
  type : offered.type = decl.type
  params : offered.params = decl.params
  span : offered.span = decl.span

/-- What a file exports is what it declares: the same functions with the same types and parameters, the variables of its
global scope, and its states. -/
structure SameOutline (exported : Exports) (analysis : Analysis) : Prop where
  functions : ∀ name, (exported.functions.get? name).isSome = (analysis.functions.get? name).isSome
  signatures : ∀ {name : String} {offered : Export} {id : Nat}, exported.functions.get? name = some offered →
    analysis.functions.get? name = some id → ∃ decl, analysis.decls[id]? = some decl ∧ Matches offered decl
  globals : ∀ {name : String} {offered : Export}, exported.globals.get? name = some offered →
    ∃ decl ∈ analysis.decls, IsGlobalVar decl ∧ Matches offered decl
  globalVars : ∀ decl ∈ analysis.decls, IsGlobalVar decl →
    ∃ offered, exported.globals.get? decl.name = some offered ∧ Matches offered decl
  states : ∀ name, (exported.states.get? name).isSome = (analysis.states.get? name).isSome

/-- What was read when nothing obscures the outline. -/
structure Settles (items : List TopLevel.Item) (state : State) : Prop where
  functions : ∀ item ∈ items, item.kind = .function →
    ∃ id decl, state.functions.get? item.name = some id ∧ state.decls[id]? = some decl ∧ Offers item decl
  exists_function : ∀ {name : String} {id : Nat}, state.functions.get? name = some id →
    ∃ item ∈ items, item.kind = .function ∧ item.name = name
  globals : ∀ item ∈ items, item.kind = .global → ∃ (id : Nat) (decl : Decl), state.decls[id]? = some decl ∧
    IsGlobalVar decl ∧ Offers item decl ∧ state.arena.named? Arena.globalScope item.name = some id
  exists_global : ∀ {id : Nat} {decl : Decl}, state.decls[id]? = some decl → IsGlobalVar decl →
    ∃ item ∈ items, item.kind = .global ∧ Offers item decl
  states : ∀ name, (state.states.get? name).isSome = true ↔ ∃ item ∈ items, item.kind = .state ∧ item.name = name

section Agreement

variable {env : Env} {all : List Token} {items : List TopLevel.Item} {stop : Nat} {state : State} {decl : Decl}

theorem readDocument_settles (ordered : InOrder 0 stop all) :
    Yields (readDocument env) { rest := all, arena := .new env.length } fun _ after =>
      after.Quiet → Settles (scan all) after := by
  refine (readDocument_ready ordered).mono fun _ after ⟨middle, used, drafted, ready, runs, done⟩ quiet => ?_
  have outlined := runs.outlined done quiet ready.between
  rw [ready.rest] at outlined
  have extends_ := Runs.extends Item.extends runs
  have quietMiddle := quiet.mono extends_.findings
  have listed := drafted.functions quietMiddle ⟨Nat.zero_lt_one, nofun⟩ (scan_pairwise ordered)
    fun item found isFunction => (outlined.functions item found isFunction).1
  refine ⟨fun item found isFunction => ?_, fun found => ?_, outlined.globals, fun found isGlobal => ?_, fun name => ?_⟩
  · obtain ⟨id, waits, known⟩ := listed item found isFunction
    obtain ⟨decl, there, offers⟩ := (outlined.functions item found isFunction).2 waits known
    refine ⟨id, decl, ?_, there, offers⟩
    rw [extends_.functions]
    exact known
  · rw [extends_.functions] at found
    exact (drafted.exists_function found).resolve_left nofun
  · refine (outlined.only found isGlobal).resolve_left fun there => ?_
    cases drafted.addsLocals _ _ there isGlobal
  · rw [extends_.states, drafted.isSome_states quietMiddle]
    exact or_iff_right nofun

theorem Analysis.Offers.matches {item : TopLevel.Item} (offers : Offers item decl) (file : Path) :
    Matches (Exports.ofItem file item) decl :=
  ⟨offers.name.symm, offers.type.symm, offers.params.symm, offers.span.symm⟩

/-- Two items of one name are declared as one variable. -/
theorem Settles.matches_global (settles : Settles items state) {item other : TopLevel.Item} (found : item ∈ items)
    (isGlobal : item.kind = .global) (foundOther : other ∈ items) (otherGlobal : other.kind = .global)
    (same : other.name = item.name) (offers : Offers item decl) (file : Path) :
    Matches (Exports.ofItem file other) decl := by
  obtain ⟨id, declared, there, _, offered, named⟩ := settles.globals item found isGlobal
  obtain ⟨otherId, otherDeclared, otherThere, _, otherOffered, otherNamed⟩ :=
    settles.globals other foundOther otherGlobal
  rw [same] at otherNamed
  obtain rfl := Option.mem_unique named otherNamed
  obtain rfl := Option.mem_unique there otherThere
  have exported := otherOffered.matches file
  refine ⟨exported.name.trans ?_, exported.type.trans ?_, exported.params.trans ?_, exported.span.trans ?_⟩
  · rw [offered.name, offers.name]
  · rw [offered.type, offers.type]
  · rw [offered.params, offers.params]
  · rw [offered.span, offers.span]

end Agreement

section Outline

variable (text : List Char) (disabled : List Span) (pre : Preprocessed) (definitions : Definitions) (file : Path)

theorem Settles.sameOutline {state : State} (length : Nat)
    (settles : Settles (scan ((tokenize text disabled).tokens.filter fun token => !token.isTrivia)) state) :
    SameOutline (Exports.ofText text disabled file) (state.result length) := by
  have exported (kind : TopLevel.Kind) (name : String) := @Exports.isSome_table text disabled file kind name
  refine ⟨fun name => ?_, fun {name offered id} found known => ?_, fun {name offered} found => ?_,
    fun decl isThere isGlobal => ?_, fun name => ?_⟩
  · refine Bool.eq_iff_iff.mpr ((exported .function name).trans ⟨?_, fun isSome => ?_⟩)
    · rintro ⟨item, found, isFunction, rfl⟩
      obtain ⟨id, _, known, _⟩ := settles.functions item found isFunction
      exact Option.isSome_of_eq_some known
    · obtain ⟨id, known⟩ := Option.isSome_iff_exists.mp isSome
      exact settles.exists_function known
  · obtain ⟨item, isItem, isFunction, rfl, rfl⟩ := @Exports.exists_item _ _ _ .function _ _ found
    obtain ⟨known', decl, same, there, offers⟩ := settles.functions item isItem isFunction
    obtain rfl := Option.mem_unique same known
    exact ⟨decl, there, offers.matches file⟩
  · obtain ⟨item, isItem, isGlobal, rfl, rfl⟩ := @Exports.exists_item _ _ _ .global _ _ found
    obtain ⟨id, decl, there, global, offers, _⟩ := settles.globals item isItem isGlobal
    exact ⟨decl, Array.mem_of_getElem? there, global, offers.matches file⟩
  · obtain ⟨id, there⟩ := Array.getElem?_of_mem isThere
    obtain ⟨item, isItem, itemGlobal, offers⟩ := settles.exists_global there isGlobal
    -- The first item of that name is exported, which is the same variable.
    obtain ⟨offered, found⟩ := Option.isSome_iff_exists.mp
      ((exported .global decl.name).mpr ⟨item, isItem, itemGlobal, offers.name.symm⟩)
    obtain ⟨first, isFirst, firstGlobal, same, rfl⟩ := Exports.exists_item found
    exact ⟨_, found, settles.matches_global isItem itemGlobal isFirst firstGlobal (same.trans offers.name) offers file⟩
  · exact Bool.eq_iff_iff.mpr ((exported .state name).trans (settles.states name).symm)

/-- A file whose outline nothing obscures looks the same from outside and inside. -/
theorem exports_sameOutline (quiet : ∀ diagnostic ∈
      (analyze text (tokenize text disabled).tokens pre definitions).diagnostics, diagnostic.code ∉ outlineCodes) :
    SameOutline (Exports.ofText text disabled file) (analyze text (tokenize text disabled).tokens pre definitions) := by
  obtain ⟨stop, ordered⟩ := exists_tokenize_inOrder text disabled
  refine Settles.sameOutline text disabled file _ (readDocument_settles (ordered.filter _) fun finding found => ?_)
  exact quiet finding.diagnostic (mem_map_of_mem (mem_append_left _ found))

end Outline

/-- A file with two functions, two states and a line that is disabled. -/
def outlineSample : List Char :=
  ("integer count;\nbad( \x7d\nfloat half(integer n, list more) \x7b return n * 0.5; \x7d\n" ++
    "log(string s) \x7b \x7b count = 1; \x7d \x7d\ndefault \x7b x() \x7b log(\"a\"); state other; \x7d \x7d\n" ++
    "state other \x7b y(integer n) \x7b \x7d \x7d\n").toList

theorem exports_sameOutline_sample :
    (∀ diagnostic ∈ (analyze outlineSample (tokenize outlineSample [⟨15, 22⟩]).tokens {} {}).diagnostics,
      diagnostic.code ∉ outlineCodes) ∧
    SameOutline (Exports.ofText outlineSample [⟨15, 22⟩] default)
      (analyze outlineSample (tokenize outlineSample [⟨15, 22⟩]).tokens {} {}) := by
  have quiet : ∀ diagnostic ∈ (analyze outlineSample (tokenize outlineSample [⟨15, 22⟩]).tokens {} {}).diagnostics,
      diagnostic.code ∉ outlineCodes := by
    decide +kernel
  exact ⟨quiet, exports_sameOutline outlineSample [⟨15, 22⟩] {} {} default quiet⟩

end ScriptLint
