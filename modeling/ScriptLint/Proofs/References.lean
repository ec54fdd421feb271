import ScriptLint.Proofs.SymbolTable

/-!
# References lead to declarations that can be seen

A name that is looked up is found in an open scope, so what it means was declared before and can be seen there. Jumps
wait for the end of their callable. The labels and the jumps of a callable lie between its header and where reading has
come to.
-/

namespace ScriptLint

open List

/-- One span lies in another. -/
def Encloses (outer inner : Span) : Prop := outer.start ≤ inner.start ∧ inner.stop ≤ outer.stop

theorem Encloses.trans {first second third : Span} (outer : Encloses first second) (inner : Encloses second third) :
    Encloses first third :=
  ⟨Nat.le_trans outer.1 inner.1, Nat.le_trans inner.2 outer.2⟩

/-- A name is found in the first of the open scopes that has it. -/
theorem Arena.split_of_lookup {arena : Arena} {length now id : Nat} {name : String}
    (laminar : arena.Laminar length now) (found : arena.lookup name = some id) :
    ∃ inner outer rest, arena.opened = inner ++ outer :: rest ∧ arena.named? outer name = some id ∧
      ∀ scope ∈ inner, arena.named? scope name = none := by
  rw [laminar.lookup_eq, findSome?_eq_some_iff] at found
  obtain ⟨inner, outer, rest, opened, named, without⟩ := found
  exact ⟨inner, outer, rest, opened, named, without⟩

namespace Analysis

/-! ## What a reference means -/

def IsCallable (kind : DeclKind) : Prop := kind = .func ∨ kind = .event

/-- A span is that of a callable, or that of the one whose end was just read. -/
def Spans (pending : Option Span) (state : State) (span : Span) : Prop :=
  pending = some span ∨ ∃ (id : Nat) (decl : Decl), state.decls[id]? = some decl ∧ IsCallable decl.kind ∧
    decl.fullSpan = span

/-- What a reference means has its name. A variable or parameter was declared before, in a scope around the reference. A
label stands in the same callable. -/
structure Resolution (pending : Option Span) (stop : Nat) (state : State) (ref : Ref) (decl : Decl) : Prop where
  name : decl.name = ref.name
  value : decl.kind = .var ∨ decl.kind = .param →
    decl.span.stop ≤ ref.span.start ∧ state.arena.Holds state.prevEnd stop decl.scope ref.span
  label : decl.kind = .label → Encloses decl.fullSpan decl.span ∧
    ∃ owner, Spans pending state owner ∧ Encloses owner decl.fullSpan ∧ Encloses owner ref.span

/-- Every reference to a declaration is resolved. -/
def Resolves (pending : Option Span) (stop : Nat) (state : State) : Prop :=
  ∀ ref ∈ state.refs.toList, ∀ id, ref.target = .decl id →
    ∃ decl, state.decls[id]? = some decl ∧ Resolution pending stop state ref decl

/-- The labels and jumps of the callable that is being read lie behind its header. -/
structure Jumping (floor : Nat) (state : State) : Prop where
  le : floor ≤ state.prevEnd
  labels : ∀ {name id}, state.labels.get? name = some id →
    ∃ decl, state.decls[id]? = some decl ∧ decl.name = name ∧ decl.kind = .label ∧
      Encloses decl.fullSpan decl.span ∧ Encloses ⟨floor, state.prevEnd⟩ decl.fullSpan
  jumps : ∀ jump ∈ state.jumps, ∃ ref, state.refs[jump.ref]? = some ref ∧ ref.name = jump.name ∧
    Encloses ⟨floor, state.prevEnd⟩ ref.span

section Steps

variable {env : Env} {pending : Option Span} {length stop floor : Nat} {all used : List Token}
  {before after state : State}

theorem Spans.mono {span : Span} (spans : Spans pending before span) (keeps : Keeps before after) :
    Spans pending after span := by
  rcases spans with isPending | ⟨id, decl, there, rest⟩
  · exact .inl isPending
  · exact .inr ⟨id, decl, keeps id decl there, rest⟩

/-- What a reference means stays resolved while the spans of callables and what lies in scopes are kept. -/
theorem Resolution.mono {other : Option Span} {ref : Ref} {decl : Decl}
    (resolution : Resolution pending stop before ref decl)
    (spans : ∀ span, Spans pending before span → Spans other after span)
    (holds : ∀ {id span}, before.arena.Holds before.prevEnd stop id span →
      after.arena.Holds after.prevEnd stop id span) : Resolution other stop after ref decl := by
  refine ⟨resolution.name, fun isValue => (resolution.value isValue).imp_right holds, fun isLabel => ?_⟩
  obtain ⟨named, owner, owns, enclosed⟩ := resolution.label isLabel
  exact ⟨named, owner, spans owner owns, enclosed⟩

/-- References stay resolved when declarations are added and scopes are opened or closed. -/
theorem Resolves.mono (resolves : Resolves pending stop before) (refs : after.refs = before.refs)
    (keeps : Keeps before after)
    (holds : ∀ {id span}, before.arena.Holds before.prevEnd stop id span →
      after.arena.Holds after.prevEnd stop id span) : Resolves pending stop after := by
  intro ref found id target
  rw [refs] at found
  obtain ⟨decl, there, resolution⟩ := resolves ref found id target
  exact ⟨decl, keeps id decl there, resolution.mono (fun _ spans => spans.mono keeps) holds⟩

/-- What a name leads to is no label. If it is a variable or a parameter, its scope is open. -/
theorem Consistent.found (consistent : Consistent env all state) (placed : Placed length stop state) {name : String}
    {id : Nat} (finds : state.declared.Finds name id) :
    ∃ decl, state.decls[id]? = some decl ∧ decl.name = name ∧ decl.kind ≠ .label ∧
      (decl.kind = .var ∨ decl.kind = .param → decl.scope ∈ state.arena.opened) := by
  rcases finds with found | ⟨decl, found, same⟩ | found
  · obtain ⟨inner, scope, outer, opened, named, _⟩ := Arena.split_of_lookup placed.laminar found
    have isOpen : scope ∈ state.arena.opened := by rw [opened]; simp
    obtain ⟨decl, there, rightName, notLabel, place⟩ := consistent.names named
    refine ⟨decl, there, rightName, notLabel, fun isValue => ?_⟩
    rcases place with same | ⟨_, astray⟩
    · rw [same]
      exact isOpen
    · rw [astray.kind] at isValue
      simp at isValue
  · obtain ⟨number, listed, there⟩ := Option.bind_eq_some_iff.mp found
    obtain ⟨known, thereKnown, rightName, kind⟩ := consistent.functions listed
    obtain rfl := Option.mem_unique thereKnown there
    have numbered := (consistent.ids there).symm.trans same
    have isFunction := kind.imp_right Astray.kind
    refine ⟨known, numbered ▸ there, rightName, ?_, fun isValue => ?_⟩
    · rcases isFunction with isFunction | isFunction <;> rw [isFunction] <;> decide
    · rcases isFunction with isFunction | isFunction <;> rw [isFunction] at isValue <;> simp at isValue
  · obtain ⟨decl, there, rightName, kind⟩ := consistent.states found
    refine ⟨decl, there, rightName, by rw [kind]; decide, fun isValue => ?_⟩
    rw [kind] at isValue
    simp at isValue

/-- References that are recorded on the way are resolved. -/
theorem Resolves.pass (resolves : Resolves pending stop before) (placed : Placed length stop before)
    (consistent : Consistent env all before) (pass : Pass used before after) : Resolves pending stop after := by
  have le := placed.le_prevEnd (.pass pass)
  have keeps : Keeps before after := .of_eq pass.decls
  obtain ⟨more, refs, mentions⟩ := pass.refs
  intro ref found id target
  rw [refs] at found
  rcases mem_append.mp found with old | new
  · obtain ⟨decl, there, resolution⟩ := resolves ref old id target
    refine ⟨decl, keeps id decl there, resolution.mono (fun _ spans => spans.mono keeps) fun held => ?_⟩
    rw [pass.arena]
    exact held.mono le
  · have mention := mentions ref new
    obtain ⟨decl, there, rightName, notLabel, isOpen⟩ := consistent.found placed (mention.found id target)
    refine ⟨decl, keeps id decl there, rightName, fun isValue => ?_, fun isLabel => absurd isLabel notLabel⟩
    obtain ⟨token, passed, _, span⟩ := mention.stands
    obtain ⟨starts, _, ends⟩ := placed.passes (.pass pass) passed
    have declared := placed.locals there (isValue.imp_right .inl)
    rw [span]
    refine ⟨Nat.le_trans declared starts, ?_⟩
    -- The scope is open, so it reaches at least to where reading has come to.
    obtain ⟨scope, thereScope, _⟩ := placed.decls there
    have opens := placed.laminar.opens (isOpen isValue) thereScope
    rw [pass.arena]
    exact ⟨scope, thereScope, Nat.le_trans opens starts, Nat.le_trans ends (placed.pass pass).ordered.le, fun _ => ends,
      fun notOpen => absurd (isOpen isValue) notOpen⟩

/-- The labels and jumps of a callable stay where they are. -/
theorem Jumping.mono (jumping : Jumping floor before) (le : before.prevEnd ≤ after.prevEnd)
    (callable : after.callable = before.callable) (keeps : Keeps before after)
    (refs : ∀ (index : Nat) (ref : Ref), before.refs[index]? = some ref → after.refs[index]? = some ref) :
    Jumping floor after := by
  have labels : after.labels = before.labels := by rw [State.labels, callable]; rfl
  have jumps : after.jumps = before.jumps := by rw [State.jumps, callable]; rfl
  refine ⟨Nat.le_trans jumping.le le, fun {name id} found => ?_, fun jump found => ?_⟩
  · rw [labels] at found
    obtain ⟨decl, there, rightName, kind, named, enclosed⟩ := jumping.labels found
    exact ⟨decl, keeps id decl there, rightName, kind, named, enclosed.1, Nat.le_trans enclosed.2 le⟩
  · rw [jumps] at found
    obtain ⟨ref, there, rightName, enclosed⟩ := jumping.jumps jump found
    exact ⟨ref, refs _ _ there, rightName, enclosed.1, Nat.le_trans enclosed.2 le⟩

theorem Jumping.pass (jumping : Jumping floor before) (placed : Placed length stop before)
    (pass : Pass used before after) : Jumping floor after := by
  obtain ⟨more, refs, _⟩ := pass.refs
  refine jumping.mono (placed.le_prevEnd (.pass pass)) (congrArg Declared.callable pass.declared) (.of_eq pass.decls)
    fun index ref found => ?_
  rw [← Array.getElem?_toList] at found ⊢
  rw [refs, getElem?_append_left (List.getElem?_eq_some_iff.mp found).1, found]

theorem Jumping.enter (jumping : Jumping floor state) (placed : Placed env.length stop state) (kind : ScopeKind)
    {token : Token} {rest : List Token} (front : state.rest = token :: rest) :
    Jumping floor (state.enter env kind) := by
  have le := placed.le_prevEnd (.pass (.one front))
  exact jumping.mono le rfl (.of_eq rfl) fun _ _ found => found

theorem Jumping.leave (jumping : Jumping floor state) (scope : Nat) : Jumping floor (state.leave scope) :=
  jumping.mono (Nat.le_refl _) rfl (.of_eq rfl) fun _ _ found => found

/-- When a callable ends, its jumps are given labels of the same callable. -/
theorem Resolves.resolve {callable : Option Callable} (resolves : Resolves none stop before)
    (jumping : Jumping floor before) (resolved : Resolved before.labels before.jumps (before.within callable) after) :
    Resolves (some ⟨floor, before.prevEnd⟩) stop after := by
  have decls := resolved.decls
  intro ref found id target
  obtain ⟨index, there⟩ := getElem?_of_mem found
  rw [Array.getElem?_toList] at there
  rcases resolved.refs there with same | ⟨jump, isJump, rfl, label, old, known, thereOld, rfl⟩
  · have member := Array.mem_toList_iff.mpr (Array.mem_of_getElem? same)
    obtain ⟨decl, thereDecl, resolution⟩ := resolves ref member id target
    refine ⟨decl, by rw [decls]; exact thereDecl, resolution.mono (fun _ spans => .inr ?_) fun held => ?_⟩
    · rw [decls]
      exact spans.resolve_left nofun
    · rw [resolved.arena, resolved.prevEnd]
      exact held
  · obtain rfl : label = id := Target.decl.inj target
    obtain ⟨decl, thereDecl, rightName, kind, named, enclosed⟩ := jumping.labels known
    obtain ⟨ref, thereRef, sameName, enclosedRef⟩ := jumping.jumps jump isJump
    obtain rfl := Option.mem_unique thereRef thereOld
    refine ⟨decl, by rw [decls]; exact thereDecl, rightName.trans sameName.symm, fun isValue => ?_, fun _ => ?_⟩
    · rw [kind] at isValue
      simp at isValue
    · exact ⟨named, _, .inl rfl, enclosed, enclosedRef⟩

/-- A declaration that is written again does not get shorter, so it still spans what it did. -/
theorem Resolves.setDecl {id : Nat} {old : Decl} {change : Decl → Decl} (resolves : Resolves pending stop state)
    (there : state.decls[id]? = some old) (refits : Refits env all old (change old))
    (covers : ∀ span, pending = some span → IsCallable (change old).kind ∧ Encloses (change old).fullSpan span) :
    Resolves none stop (state.setDecl id change) := by
  have callable (kind : IsCallable old.kind) : IsCallable (change old).kind := by
    rcases refits.kind with ⟨same, _⟩ | ⟨_, _, astray⟩
    · rw [same]
      exact kind
    · exact .inr astray.kind
  have spans {span : Span} (spans : Spans pending state span) :
      ∃ wider, Spans none (state.setDecl id change) wider ∧ Encloses wider span := by
    rcases spans with isPending | ⟨other, decl, thereDecl, isCallable, rfl⟩
    · obtain ⟨isCallable, enclosed⟩ := covers span isPending
      exact ⟨_, .inr ⟨id, _, by rw [getElem?_setDecl, if_pos rfl, there]; rfl, isCallable, rfl⟩, enclosed⟩
    · have rewritten : ∃ written, (state.setDecl id change).decls[other]? = some written ∧ IsCallable written.kind ∧
          Encloses written.fullSpan decl.fullSpan :=
        exists_setDecl there (.imp callable (Encloses.trans refits.covers)) ⟨decl, thereDecl, isCallable, Nat.le_refl _,
          Nat.le_refl _⟩
      obtain ⟨written, thereWritten, isCallable, enclosed⟩ := rewritten
      exact ⟨_, .inr ⟨other, written, thereWritten, isCallable, rfl⟩, enclosed⟩
  intro ref found target isTarget
  refine exists_setDecl there (fun resolution => ⟨refits.name.trans resolution.name,
    fun isValue => absurd (isValue.imp_right .inl) refits.notLocal_new,
    fun isLabel => absurd (.inr (.inr isLabel)) refits.notLocal_new⟩) ?_
  obtain ⟨decl, thereDecl, resolution⟩ := resolves ref found target isTarget
  refine ⟨decl, thereDecl, resolution.name, resolution.value, fun isLabel => ?_⟩
  obtain ⟨named, owner, owned, enclosedLabel, enclosedRef⟩ := resolution.label isLabel
  obtain ⟨wider, spansWider, around⟩ := spans owned
  exact ⟨named, wider, spansWider, around.trans enclosedLabel, around.trans enclosedRef⟩

end Steps

end Analysis

end ScriptLint
