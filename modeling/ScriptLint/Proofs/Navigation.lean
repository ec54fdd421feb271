import Mathlib.Data.List.Nodup
import ScriptLint.Proofs.AnalyzedDocument
import ScriptLint.Proofs.FileOutline

/-!
# Going to a definition

In a well-formed document every declaration and every reference stands at a name of its own: what was declared in
advance is not declared again, and no name is both declared and referred to. Names never touch, so an offset leads to
one of them at most.
-/

namespace ScriptLint

open Text Analysis TopLevel List

namespace Analysis

/-! ## Marked names -/

/-- Where the declared names stand. -/
def State.declSpans (state : State) : List Span := state.decls.toList.map Decl.span

/-- Where the declared names and the references stand. -/
def State.marks (state : State) : List Span := state.declSpans ++ state.refSpans

/-- Declared names stay where they are. What is declared or referred to stands at names among some tokens, no two at the
same one. -/
structure Marks (tokens : List Token) (before after : State) : Prop where
  decls : before.declSpans <+: after.declSpans
  count : ∀ span, after.marks.count span ≤ before.marks.count span + (nameSpans tokens).count span

theorem nameSpans_singleton {name : Token} (ident : name.isIdent) : nameSpans [name] = [name.span] := by
  simp [nameSpans, ident]

/-- What stands in braces is part of the whole. -/
theorem sublist_braces (opening : Token) (inside behind : List Token) :
    inside.Sublist (opening :: (inside ++ behind)) :=
  (sublist_append_left ..).trans (sublist_cons_self ..)

theorem getElem?_declSpans (state : State) (id : Nat) : state.declSpans[id]? = state.decls[id]?.map Decl.span := by
  simp [State.declSpans]

theorem declSpans_setDecl {state : State} {id : Nat} {change : Decl → Decl}
    (same : ∀ decl, state.decls[id]? = some decl → (change decl).span = decl.span) :
    (state.setDecl id change).declSpans = state.declSpans := by
  refine ext_getElem? fun index => ?_
  rw [getElem?_declSpans, getElem?_declSpans, getElem?_setDecl]
  split
  · rename_i place
    subst place
    cases found : state.decls[id]? with
    | none => rfl
    | some decl => exact congrArg some (same decl found)
  · rfl

theorem declSpans_stay {before after : State} {id : Nat} {span : Span} (decls : before.declSpans <+: after.declSpans)
    (found : before.declSpans[id]? = some span) : after.declSpans[id]? = some span := by
  obtain ⟨later, whole⟩ := decls
  rw [← whole, getElem?_append_left (List.getElem?_eq_some_iff.mp found).1, found]

namespace Marks

variable {tokens more : List Token} {before middle after : State}

theorem of_same (decls : after.declSpans = before.declSpans) (refs : after.refSpans = before.refSpans) :
    Marks [] before after := by
  refine ⟨decls ▸ prefix_rfl, fun span => ?_⟩
  rw [State.marks, decls, refs]
  exact Nat.le_add_right _ _

theorem refl (state : State) : Marks [] state state := of_same rfl rfl

theorem mono (marks : Marks tokens before after) (sublist : tokens.Sublist more) : Marks more before after :=
  ⟨marks.decls, fun span =>
    Nat.le_trans (marks.count span) (Nat.add_le_add_left (((sublist.filter _).map _).count_le span) _)⟩

theorem trans (first : Marks tokens before middle) (second : Marks more middle after) :
    Marks (tokens ++ more) before after := by
  refine ⟨first.decls.trans second.decls, fun span => ?_⟩
  have early := first.count span
  have late := second.count span
  rw [nameSpans_append, count_append]
  omega

theorem swap (marks : Marks (tokens ++ more) before after) : Marks (more ++ tokens) before after := by
  refine ⟨marks.decls, fun span => ?_⟩
  have count := marks.count span
  rw [nameSpans_append, count_append] at count ⊢
  omega

theorem pass (pass : Pass tokens before after) : Marks tokens before after := by
  have decls : after.declSpans = before.declSpans := by rw [State.declSpans, pass.decls]; rfl
  refine ⟨decls ▸ prefix_rfl, fun span => ?_⟩
  have names := pass.names span
  rw [State.marks, State.marks, decls, count_append, count_append]
  omega

theorem declare {name : Token} {decl : Decl} (decls : after.decls = before.decls.push decl)
    (refs : after.refs = before.refs)
    (ident : name.isIdent) (span : decl.span = name.span) : Marks [name] before after := by
  have spans : after.declSpans = before.declSpans ++ [name.span] := by simp [State.declSpans, decls, span]
  refine ⟨by rw [spans]; exact prefix_append .., fun other => ?_⟩
  rw [nameSpans_singleton ident, State.marks, State.marks, spans, State.refSpans, refs, count_append, count_append,
    count_append, State.refSpans]
  omega

end Marks

/-! ## Bodies and callables -/

variable {env : Env} {used : List Token} {before after : State} {name : Token}

theorem Body.marks (body : Body env used before after) : Marks used before after := by
  induction body with
  | walk walk => exact .pass walk.toPass
  | trans _ _ first second => exact first.trans second
  | @declare used _ before middle _ name kind _ type full _ _ ident value =>
    have value : Marks used before middle := ⟨(Marks.pass value.toPass).decls, (Marks.pass value.toPass).count⟩
    have named : Marks [name] middle (middle.declare kind name type full) := .declare rfl rfl ident rfl
    exact (value.trans named).swap.mono (sublist_cons_self ..)
  | @label _ before mark name _ _ ident =>
    have named : Marks [name] before ((before.advance 2).label mark.span name) := .declare rfl rfl ident rfl
    exact named.mono (sublist_cons_self ..)
  | jump front plain ident =>
    have referred := Marks.pass (walk_unresolved front plain ident).toPass
    exact ⟨referred.decls, referred.count⟩
  | block _ _ _ _ ih =>
    exact Marks.mono ⟨ih.decls, ih.count⟩ (sublist_braces ..)
  | loop _ _ _ ih => exact Marks.mono ⟨ih.decls, ih.count⟩ (sublist_cons_self ..)

/-- A name, unless it was declared in advance. -/
def State.unmarked (state : State) (name : Token) : List Token :=
  if (state.prototypes.lookup name.span.start).isSome then [] else [name]

theorem unmarked_sublist (state : State) (name : Token) : (state.unmarked name).Sublist [name] := by
  rw [State.unmarked]
  split
  · exact nil_sublist _
  · exact List.Sublist.refl _

/-- What was declared in advance for a name stands there. -/
def State.Reserves (state : State) (name : Token) : Prop :=
  ∀ id, state.prototypes.lookup name.span.start = some id → state.declSpans[id]? = some name.span

theorem State.Reserves.next (reserves : before.Reserves name) (decls : before.declSpans <+: after.declSpans)
    (prototypes : after.prototypes = before.prototypes) : after.Reserves name := by
  intro id known
  rw [prototypes] at known
  exact declSpans_stay decls (reserves id known)

theorem Resolved.refSpans {labels : NameMap Nat} {jumps : List Jump} (resolved : Resolved labels jumps before after) :
    after.refSpans = before.refSpans := by
  refine ext_getElem? fun index => ?_
  simp only [State.refSpans, getElem?_map, Array.getElem?_toList]
  cases found : after.refs[index]? with
  | none =>
    rw [Array.getElem?_eq_none_iff, resolved.size, ← Array.getElem?_eq_none_iff] at found
    rw [found]
  | some =>
    rcases resolved.refs found with same | ⟨_, _, _, _, old, _, there, rfl⟩
    · rw [same]
    · rw [there]
      rfl

section Callables

variable {kind : DeclKind} {returns : SemType} {start id : Nat}

theorem Slot.marks (slot : Slot kind returns name start before id after) (ident : name.isIdent)
    (reserves : before.Reserves name) :
    Marks (before.unmarked name) before after ∧ after.declSpans[id]? = some name.span := by
  have header : Marks [name] before (before.addHeader kind returns name start before.arena.current) :=
    .declare rfl rfl ident rfl
  have placed : (before.addHeader kind returns name start before.arena.current).declSpans[before.decls.size]? =
      some name.span := by
    rw [getElem?_declSpans, State.addHeader, getElem?_addDecl_size]
    rfl
  cases slot with
  | known found =>
    rw [State.unmarked, found]
    exact ⟨.refl before, reserves id found⟩
  | fresh new made =>
    have passed := Marks.pass made
    rw [State.unmarked, new]
    exact ⟨header.trans passed, declSpans_stay passed.decls placed⟩
  | bound new =>
    rw [State.unmarked, new]
    exact ⟨⟨header.decls, header.count⟩, placed⟩

theorem CallableRun.marks (run : CallableRun env kind returns name start used before after) (ident : name.isIdent)
    (reserves : before.Reserves name) : Marks (before.unmarked name ++ used) before after := by
  have header {used : List Token} {id scope : Nat} {params : List Param} {headed : State}
      (run : HeaderRun env kind returns name start used before id params scope headed) :
      Marks (before.unmarked name ++ used) before headed ∧ headed.declSpans[id]? = some name.span := by
    cases run with
    | @mk used _ _ chosen _ _ _ _ slot _ _ body =>
      obtain ⟨marks, placed⟩ := slot.marks ident reserves
      have inside : Marks used chosen headed := ⟨body.marks.decls, body.marks.count⟩
      exact ⟨marks.trans (inside.mono (sublist_cons_self ..)), declSpans_stay inside.decls placed⟩
  -- The declaration is written again with the name that it has.
  have written (last : State) {id : Nat} (placed : last.declSpans[id]? = some name.span) (params : List Param)
      (stop : Nat) :
      Marks [] last (last.setDecl id fun _ =>
        headerDecl id name.text kind returns params name.span start stop before.arena.current) := by
    refine .of_same (declSpans_setDecl fun old found => ?_) rfl
    rw [getElem?_declSpans, found] at placed
    exact (Option.some.inj placed).symm
  cases run with
  | @body used inside _ _ headed middle resolved last _ scope params opening _ run _ _ _ inner _ jumps reported =>
    obtain ⟨marks, placed⟩ := header run
    have inner : Marks inside headed middle := ⟨inner.marks.decls, inner.marks.count⟩
    have jumped : Marks [] middle resolved := by
      refine .of_same ?_ jumps.refSpans
      rw [State.declSpans, jumps.decls]
      rfl
    have body := inner.trans (jumped.trans (.pass reported))
    have read : Marks (before.unmarked name ++ used ++ inside) before (last.leave scope) := by
      have whole := marks.trans body
      rw [append_nil, append_nil] at whole
      exact ⟨whole.decls, whole.count⟩
    have whole := read.trans (written (last.leave scope) (declSpans_stay body.decls placed) params last.prevEnd)
    rw [append_nil, append_assoc] at whole
    exact whole.mono (((sublist_braces ..).append_left used).append_left _)
  | @missing _ behind _ headed last _ _ params run skipped =>
    obtain ⟨marks, placed⟩ := header run
    have skipped : Marks behind headed last := ⟨(Marks.pass skipped.toPass).decls, (Marks.pass skipped.toPass).count⟩
    have whole := (marks.trans skipped).trans (written last (declSpans_stay skipped.decls placed) params headed.prevEnd)
    rwa [append_nil, append_assoc] at whole

end Callables

/-! ## Items -/

/-- What was declared in advance stands at the names that are left to read. -/
def State.Awaits (state : State) : Prop := ∀ token ∈ state.rest, state.Reserves token

theorem State.Awaits.next (awaits : before.Awaits) (decls : before.declSpans <+: after.declSpans)
    (extends_ : Extends used before after) : after.Awaits := by
  intro token found
  have isThere : token ∈ before.rest := by
    rw [extends_.rest]
    exact mem_append_right _ found
  exact (awaits token isThere).next decls extends_.prototypes

theorem Handler.marks (handler : Handler env used before after) (awaits : before.Awaits) : Marks used before after := by
  cases handler with
  | skip pass => exact .pass pass
  | @handler used _ _ name _ _ front ident _ run =>
    have marks := run.marks ident (awaits name (by rw [front]; exact mem_cons_self))
    exact Marks.mono ⟨marks.decls, marks.count⟩ ((unmarked_sublist _ name).append (List.Sublist.refl used))

theorem Runs.marks (runs : Runs (Handler env) used before after) (awaits : before.Awaits) :
    Marks used before after := by
  induction runs with
  | done state => exact .refl state
  | more first _ ih =>
    have marks := first.marks awaits
    exact marks.trans (ih (awaits.next marks.decls first.extends))

theorem StateSlot.marks {id : Nat} (slot : StateSlot name before id after) (ident : name.isIdent) :
    Marks (before.unmarked name) before after := by
  cases slot with
  | known found =>
    rw [State.unmarked, found]
    exact .refl before
  | fresh new =>
    rw [State.unmarked, new]
    exact .declare rfl rfl ident rfl

/-- Where the items stand that were declared in advance. -/
def State.drafts (state : State) (items : List TopLevel.Item) : List Span :=
  (items.filter fun item => item.kind != .global && (state.prototypes.lookup item.span.start).isSome).map
    TopLevel.Item.span

/-- A name that was declared in advance is not marked again. -/
theorem count_drafts_add (before : State) {item : TopLevel.Item} (stands : item.span = name.span)
    (ident : name.isIdent) (span : Span) :
    (before.drafts [item]).count span + (nameSpans (before.unmarked name)).count span ≤
      (nameSpans [name]).count span := by
  have names := nameSpans_singleton ident
  have drafts : before.drafts [item] =
      if item.kind != .global && (before.prototypes.lookup name.span.start).isSome then [name.span] else [] := by
    rw [State.drafts, filter_cons, stands]
    split
    · exact congrArg (fun span => [span]) stands
    · rfl
  rw [drafts, State.unmarked, names]
  cases (before.prototypes.lookup name.span.start).isSome with
  | false =>
    rw [Bool.and_false, if_neg Bool.false_ne_true, if_neg Bool.false_ne_true, names]
    exact Nat.le_of_eq (Nat.zero_add _)
  | true =>
    split
    · exact Nat.le_refl _
    · exact Nat.zero_le _

/-- An item is read at a name that may have been declared in advance. -/
structure ItemMarks (item : TopLevel.Item) (used : List Token) (before after : State) : Prop where
  scan : scan before.rest = item :: scan after.rest
  decls : before.declSpans <+: after.declSpans
  count : ∀ span, after.marks.count span + (before.drafts [item]).count span ≤
    before.marks.count span + (nameSpans used).count span

theorem itemMarks_of_lead {item : TopLevel.Item} {lead : List Token} (scans : Scans item before after)
    (stands : item.span = name.span) (ident : name.isIdent)
    (marks : Marks (before.unmarked name ++ used) before after) :
    ItemMarks item (lead ++ [name] ++ used) before after := by
  refine ⟨scans.scan, marks.decls, fun span => ?_⟩
  have count := marks.count span
  have drafts := count_drafts_add before stands ident span
  rw [nameSpans_append, count_append] at count ⊢
  rw [nameSpans_append, count_append]
  omega

theorem Item.marks (item : Item env used before after) (clean : after.Clean) (awaits : before.Awaits) :
    ∃ found, ItemMarks found used before after := by
  -- What stands in front of a name marks nothing.
  have leads {lead : List Token} {name : Token} {ready : State} (passed : Pass (lead ++ [name]) before ready)
      (silent : ready.refs = before.refs) :
      Marks [] before ready ∧ ready.unmarked name = before.unmarked name ∧ ready.Reserves name := by
    have decls : ready.declSpans = before.declSpans := by rw [State.declSpans, passed.decls]; rfl
    have marks : Marks [] before ready := .of_same decls (by rw [State.refSpans, silent]; rfl)
    have prototypes := (Extends.pass passed).prototypes
    refine ⟨marks, by rw [State.unmarked, prototypes]; rfl, (awaits name ?_).next marks.decls prototypes⟩
    rw [passed.rest]
    simp
  cases item with
  | skip _ broken => exact absurd clean broken
  | «variable» front typed ident declares run =>
    have body : Body env _ before after := run.body front (isBrace_of_typeOf? typed) ident
    exact ⟨_, (run.scans front typed ident declares clean).scan, body.marks.decls, body.marks.count⟩
  | @callable lead _ _ _ _ _ name _ _ led passed _ run silent =>
    obtain ⟨params, scans, _⟩ := run.scans led passed clean
    obtain ⟨lead, unmarked, reserves⟩ := leads passed silent
    have ident : name.isIdent := by cases led <;> assumption
    have marks := lead.trans (run.marks ident reserves)
    rw [unmarked] at marks
    exact ⟨_, itemMarks_of_lead scans rfl ident marks⟩
  | @state lead used _ _ ready chosen middle _ name opening id led passed slot front opens handlers ends silent =>
    have ident : name.isIdent := by
      cases led with
      | bare word => exact (Bool.and_eq_true_iff.mp word).1
      | named _ ident => exact ident
    obtain ⟨lead, unmarked, reserves⟩ := leads passed silent
    have named := lead.trans (slot.marks ident)
    rw [unmarked] at named
    have entered := ((Extends.pass passed).andThen slot.extends).trans (.pass (.one front))
    have inside : (chosen.advance 1).Awaits := awaits.next named.decls entered
    have inner : Marks used chosen middle := ⟨(handlers.marks inside).decls, (handlers.marks inside).count⟩
    have whole (full : Span) : Marks (before.unmarked name ++ used) before
        ((middle.advance 1).close.setDecl id fun decl => { decl with fullSpan := full }) := by
      have marks := named.trans inner
      have spans : ((middle.advance 1).close.setDecl id fun decl => { decl with fullSpan := full }).declSpans =
          middle.declSpans := declSpans_setDecl fun decl found => rfl
      have closed := marks.trans (.of_same spans rfl)
      rwa [append_nil] at closed
    exact ⟨_, itemMarks_of_lead (scans_state led passed slot front opens handlers ends rfl) rfl ident
      ((whole _).mono ((sublist_braces ..).append_left _))⟩
  | stateless _ _ _ _ broken => exact absurd clean broken

/-- The names that were read are marked once at most, and so are those that were declared in advance. -/
def State.Marked (read : List Token) (state : State) : Prop :=
  state.Awaits ∧ ∀ span, state.marks.count span ≤
    (nameSpans read).count span + (state.drafts (scan state.rest)).count span

theorem Item.marked {read : List Token} (item : Item env used before after) (clean : after.Clean)
    (marked : before.Marked read) : after.Marked (read ++ used) := by
  obtain ⟨found, scan, decls, count⟩ := item.marks clean marked.1
  refine ⟨marked.1.next decls item.extends, fun span => ?_⟩
  have early := marked.2 span
  have late := count span
  rw [scan, ← singleton_append, State.drafts, filter_append, map_append, count_append] at early
  rw [nameSpans_append, count_append, State.drafts, item.extends.prototypes]
  rw [State.drafts] at late
  omega

/-- What is declared in advance for some items stays so, and is marked once at most. -/
def Announces (items : List TopLevel.Item) (before after : State) : Prop :=
  (∀ offset, (before.prototypes.lookup offset).isSome = true → (after.prototypes.lookup offset).isSome = true) ∧
    ∀ span, after.marks.count span ≤ before.marks.count span + (after.drafts items).count span

theorem Drafts.marks {item : TopLevel.Item} (drafts : Drafts env item before after) :
    Announces [item] before after := by
  have drafted {decl : Decl} (kind : item.kind ≠ .global) (at_ : decl.span = item.span)
      (decls : after.decls = before.decls.push decl) (refs : after.refs = before.refs)
      (prototypes : after.prototypes = (item.span.start, before.decls.size) :: before.prototypes) :
      Announces [item] before after := by
    refine ⟨fun offset found => ?_, fun span => ?_⟩
    · rw [prototypes, lookup_cons]
      split
      · rfl
      · exact found
    · have draft : after.drafts [item] = [item.span] := by
        simp [State.drafts, prototypes, kind]
      have spans : after.declSpans = before.declSpans ++ [item.span] := by simp [State.declSpans, decls, at_]
      rw [draft, State.marks, State.marks, spans, State.refSpans, refs, count_append, count_append,
        count_append, State.refSpans]
      omega
  cases drafts with
  | later | handler | refused => exact ⟨fun _ found => found, fun span => Nat.le_add_right _ _⟩
  | function kind => exact drafted (by rw [kind]; decide) rfl rfl rfl rfl
  | state kind => exact drafted (by rw [kind]; decide) rfl rfl rfl rfl

theorem Drafted.marks {items : List TopLevel.Item} (drafted : Drafted env items before after) :
    Announces items before after := by
  induction drafted with
  | done => exact ⟨fun _ found => found, fun span => Nat.le_add_right _ _⟩
  | @more item items _ middle after first _ ih =>
    obtain ⟨stays, early⟩ := first.marks
    obtain ⟨staysLater, late⟩ := ih
    refine ⟨fun offset found => staysLater offset (stays offset found), fun span => ?_⟩
    have kept : (middle.drafts [item]).count span ≤ (after.drafts [item]).count span := by
      refine ((List.Sublist.map _ (monotone_filter_right _ fun item => ?_))).count_le span
      rw [Bool.and_eq_true, Bool.and_eq_true]
      exact fun ⟨kind, known⟩ => ⟨kind, staysLater _ known⟩
    have split : after.drafts (item :: items) = after.drafts [item] ++ after.drafts items := by
      rw [State.drafts, ← singleton_append, filter_append, map_append]
      rfl
    have early := early span
    have late := late span
    rw [split, count_append]
    omega

/-- In a well-formed document no name is marked twice. -/
theorem readDocument_marks {all : List Token} {stop : Nat} (ordered : InOrder 0 stop all) :
    Yields (readDocument env) { rest := all, arena := .new env.length } fun _ after =>
      after.Clean → ∀ span, after.marks.count span ≤ (nameSpans all).count span := by
  refine (readDocument_ready ordered).mono fun _ after ⟨middle, used, drafted, ready, runs, done⟩ clean span => ?_
  have awaits : middle.Awaits := by
    intro token found id known
    obtain ⟨decl, there, sketch⟩ := ready.sound.awaiting token found id known
    rw [getElem?_declSpans, there]
    exact congrArg some sketch.span
  have marked : middle.Marked [] := by
    refine ⟨awaits, fun span => ?_⟩
    have counted := drafted.marks.2 span
    rw [ready.rest]
    exact counted
  let holds (read : List Token) (state : State) : Prop := state.Clean → state.Marked read
  have whole : holds ([] ++ used) after :=
    Runs.preserves (fun item marked clean => item.marked clean (marked (item.extends.clean clean))) runs fun _ => marked
  have counted := (whole clean).2 span
  have read : all = used := by
    have rest := Runs.extends Item.extends runs |>.rest
    rwa [ready.rest, done, append_nil] at rest
  rw [done, scan.eq_def] at counted
  rw [read]
  exact counted

end Analysis

/-! ## Questions -/

/-- Every name leads to its declaration, and every reference to what it means, from each offset at the word. -/
structure Navigates (analysis : Analysis) : Prop where
  decls : ∀ decl ∈ analysis.decls, ∀ offset, decl.span.touches offset = true → analysis.symbolAt? offset = some decl
  refs : ∀ ref ∈ analysis.refs, ∀ id, ref.target = .decl id → ref ∈ analysis.referencesTo id ∧
    ∀ offset, ref.span.touches offset = true → analysis.refAt? offset = some ref ∧
      ∃ decl, analysis.decl? id = some decl ∧ analysis.symbolAt? offset = some decl

/-- An offset touches one of some spans at most. -/
def Separate (spans : List Span) : Prop :=
  ∀ span ∈ spans, ∀ other ∈ spans, ∀ offset, span.touches offset = true → other.touches offset = true → span = other

/-- Of items at different spans that never touch the same offset, a search finds the one at the offset. -/
theorem find?_touches {α : Type} {items : List α} {span : α → Span} {item : α} {offset : Nat}
    (distinct : (items.map span).Nodup) (separate : Separate (items.map span)) (found : item ∈ items)
    (touches : (span item).touches offset) :
    items.find? (fun item => (span item).touches offset) = some item := by
  cases first : items.find? fun item => (span item).touches offset with
  | none => exact absurd touches (find?_eq_none.mp first item found)
  | some other =>
    have isThere := mem_of_find?_eq_some first
    have touchesOther : (span other).touches offset := by simpa using find?_some first
    have same := separate _ (mem_map_of_mem isThere) _ (mem_map_of_mem found) offset touchesOther touches
    rw [inj_on_of_nodup_map distinct isThere found same]

section Marked

variable {env : Env} {state : State} {all : List Token} {stop length : Nat}

theorem navigates_result (nodup : state.marks.Nodup) (separate : Separate state.marks)
    (resolves : ∀ ref ∈ state.refs.toList, ∀ id, ref.target = .decl id → ∃ decl, state.decls[id]? = some decl) :
    Navigates (state.result length) := by
  obtain ⟨decls, refs, disjoint⟩ := nodup_append.mp nodup
  have separateDecls : Separate state.declSpans := fun span found other isThere =>
    separate span (mem_append_left _ found) other (mem_append_left _ isThere)
  have separateRefs : Separate state.refSpans := fun span found other isThere =>
    separate span (mem_append_right _ found) other (mem_append_right _ isThere)
  refine ⟨fun decl found offset touches => ?_, fun ref found id target => ⟨?_, fun offset touches => ?_⟩⟩
  · have first := find?_touches decls separateDecls (Array.mem_toList_iff.mpr found) touches
    rw [Array.find?_toList] at first
    rw [Analysis.symbolAt?, show (state.result length).decls = state.decls from rfl, first]
  · refine mem_filter.mpr ⟨Array.mem_toList_iff.mpr found, ?_⟩
    rw [target]
    exact beq_self_eq_true _
  · have isRef := Array.mem_toList_iff.mpr found
    have first : (state.result length).refAt? offset = some ref := by
      rw [Analysis.refAt?, ← Array.find?_toList]
      exact find?_touches refs separateRefs isRef touches
    -- No declaration stands where a reference does.
    have noDecl : state.decls.find? (fun decl => decl.span.touches offset) = none := by
      rw [← Array.find?_toList, find?_eq_none]
      intro decl isDecl touchesDecl
      have declSpan : decl.span ∈ state.declSpans := mem_map_of_mem isDecl
      have refSpan : ref.span ∈ state.refSpans := mem_map_of_mem isRef
      exact disjoint _ declSpan _ refSpan
        (separate _ (mem_append_left _ declSpan) _ (mem_append_right _ refSpan) offset touchesDecl touches)
    obtain ⟨decl, there⟩ := resolves ref isRef id target
    refine ⟨first, decl, there, ?_⟩
    rw [Analysis.symbolAt?, show (state.result length).decls = state.decls from rfl, noDecl]
    simp only [first, Option.bind_some, target]
    exact there

/-- Marks stand at names, and names do not touch. -/
theorem separate_marks (ordered : InOrder 0 stop all)
    (divided : all.Pairwise fun token later =>
      token.isIdent → later.isIdent → token.span.stop < later.span.start)
    (counted : ∀ span, state.marks.count span ≤ (nameSpans all).count span) :
    state.marks.Nodup ∧ Separate state.marks := by
  have names : (nameSpans all).Pairwise fun span other => span.start < span.stop ∧ span.stop < other.start := by
    refine pairwise_map.mpr (pairwise_filter.mpr ?_)
    refine divided.imp_of_mem fun {token later} found _ divided ident identLater => ?_
    exact ⟨ordered.filled token found, divided ident identLater⟩
  have distinct : (nameSpans all).Nodup := names.imp fun {span other} order same => by
    rw [same] at order
    omega
  have separate : Separate (nameSpans all) := by
    have apart {span other : Span} {offset : Nat} (order : span.start < span.stop ∧ span.stop < other.start)
        (touches : span.touches offset) (touchesOther : other.touches offset) : span = other := by
      rw [Span.touches, Bool.and_eq_true, decide_eq_true_eq, decide_eq_true_eq] at touches touchesOther
      omega
    intro span found other isThere offset
    refine List.Pairwise.forall_of_forall_of_flip (R := fun span other : Span =>
      span.touches offset → other.touches offset → span = other) (fun _ _ _ _ => rfl)
      (names.imp apart) (names.imp fun order touches touchesOther => ?_) found isThere
    exact (apart order touchesOther touches).symm
  have among : ∀ span ∈ state.marks, span ∈ nameSpans all := by
    intro span found
    exact count_pos_iff.mp (Nat.lt_of_lt_of_le (count_pos_iff.mpr found) (counted span))
  refine ⟨?_, fun span found other isThere => separate span (among span found) other (among other isThere)⟩
  exact nodup_iff_count_le_one.mpr fun span =>
    Nat.le_trans (counted span) (nodup_iff_count_le_one.mp distinct span)

end Marked

/-- In any well-formed document, however it is laid out, every offset at the name of a declaration leads to it, and
every offset at a reference leads to the reference and to what it means. -/
theorem analyze_navigates (setting : Preprocess.Setting) (text : List Char) (path : Option Path) (cache : IncludeCache)
    (definitions : Definitions) :
    let pre := (preprocess setting text path cache).1
    let analysis := analyze text (tokenize text pre.disabled).tokens pre definitions
    (∀ diagnostic ∈ analysis.diagnostics, diagnostic.code ≠ .malformed) → Navigates analysis := by
  intro pre analysis wellFormed
  have filled : ∀ range ∈ pre.disabled, range.start < range.stop :=
    fun _ => (Preprocess.Run.all_apart _ _ text cache).filled
  obtain ⟨stop, ordered⟩ := exists_tokenize_inOrder text pre.disabled
  have filtered := ordered.filter fun token => !token.isTrivia
  have divided := (tokenize_divided text pre.disabled filled).filter fun token => !token.isTrivia
  have counted := readDocument_marks filtered fun finding found =>
    wellFormed finding.diagnostic (mem_map_of_mem (mem_append_left _ found))
  obtain ⟨nodup, separate⟩ := separate_marks filtered divided counted
  refine navigates_result nodup separate fun ref found id target => ?_
  obtain ⟨decl, there, _⟩ := (readDocument_sound filtered).1.resolves ref found id target
  exact ⟨decl, there⟩

/-- A document with a disabled line, a jump ahead and a call in front of the function that it means. -/
def navigationSample : List Char :=
  ("#ifdef A\ninteger hidden(\n#endif\ng() \x7b f(1); \x7d integer f(integer a) \x7b if(a)jump out;@out;return-a;\x7d " ++
    "default \x7b x() \x7b g(); state default; \x7d \x7d").toList

def navigationSample.analysis : Analysis :=
  let pre := (preprocess ⟨default, ⟨[]⟩, ∅⟩ navigationSample none {}).1
  analyze navigationSample (tokenize navigationSample pre.disabled).tokens pre {}

theorem navigates_sample :
    (∀ diagnostic ∈ navigationSample.analysis.diagnostics, diagnostic.code ≠ .malformed) ∧
      navigationSample.analysis.refs[0]? = some ⟨"f", ⟨38, 39⟩, .decl 1⟩ ∧ Navigates navigationSample.analysis := by
  have read : (∀ diagnostic ∈ navigationSample.analysis.diagnostics, diagnostic.code ≠ .malformed) ∧
      navigationSample.analysis.refs[0]? = some ⟨"f", ⟨38, 39⟩, .decl 1⟩ := by
    decide +kernel
  exact ⟨read.1, read.2, analyze_navigates _ navigationSample none {} {} read.1⟩

end ScriptLint
