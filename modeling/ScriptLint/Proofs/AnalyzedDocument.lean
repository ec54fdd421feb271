import ScriptLint.Analysis
import ScriptLint.Proofs.DisabledRanges
import ScriptLint.Proofs.LightScan

/-!
# The analysis of a document

What an analysis says about any text, well-formed or not: its scopes are nested, its tables lead to declarations of the
right name, and what a reference means can be seen from where the reference stands.
-/

namespace ScriptLint

open Text Analysis List

section Result

variable {text : List Char} {tokens : List Token} {pre : Preprocessed} {definitions : Definitions} {stop : Nat}
  {state : State}

/-- Closing what is open at the end leaves the global scope alone. -/
theorem scopes_result (length : Nat) (opened : state.arena.opened = [Arena.globalScope]) :
    (state.result length).scopes = state.arena.scopes := by
  change (state.arena.opened.foldl (fun arena _ => arena.pop length) state.arena).scopes = _
  rw [opened]
  change (state.arena.pop length).scopes = _
  rw [Arena.pop, opened]

/-- An analysis is the result of a reading that ends outside all braces. -/
theorem analyze_eq_result (text : List Char) (pre : Preprocessed) (definitions : Definitions)
    (ordered : InOrder 0 stop tokens) :
    ∃ state, analyze text tokens pre definitions = state.result (byteLength text) ∧
      Sound ⟨byteLength text, .ofText text, pre, definitions⟩ (tokens.filter fun token => !token.isTrivia) stop none
        state ∧
      state.arena.opened = [Arena.globalScope] ∧
      (state.Clean → ∀ decl, ¬Astray definitions (tokens.filter fun token => !token.isTrivia) decl) := by
  have filtered := ordered.filter fun token => !token.isTrivia
  obtain ⟨sound, opened, _⟩ := readDocument_sound filtered
  exact ⟨_, rfl, sound, opened, readDocument_not_astray filtered⟩

end Result

/-! ## Scopes -/

/-- The scopes of an analysis are a tree, and a declaration lies in its scope. -/
structure ScopesNest (length : Nat) (analysis : Analysis) : Prop where
  ids : ∀ {id : Nat} {scope : Scope}, analysis.scopes[id]? = some scope → scope.id = id
  global : ∃ scope, analysis.scopes[Arena.globalScope]? = some scope ∧ scope.kind = .global ∧ scope.parent = none ∧
    scope.span = ⟨0, length⟩
  outer : ∀ {id : Nat} {scope : Scope}, analysis.scopes[id]? = some scope → id ≠ Arena.globalScope →
    ∃ outer around, scope.parent = some outer ∧ outer < id ∧ analysis.scopes[outer]? = some around ∧
      Encloses around.span scope.span
  apart : ∀ {id other : Nat} {scope further : Scope}, analysis.scopes[id]? = some scope →
    analysis.scopes[other]? = some further → id ≠ other → ¬Around analysis.scopes id other →
    ¬Around analysis.scopes other id → scope.span.stop ≤ further.span.start ∨ further.span.stop ≤ scope.span.start
  decls : ∀ {id : Nat} {decl : Decl}, analysis.decls[id]? = some decl →
    ∃ scope, analysis.scopes[decl.scope]? = some scope ∧ Encloses scope.span decl.span

section Scopes

variable {arena : Arena} {length now id : Nat} {span : Span}

/-- When only the global scope is open, what lies in a scope ends where it does. -/
theorem Arena.Holds.encloses (holds : arena.Holds now length id span) (laminar : arena.Laminar length now)
    (opened : arena.opened = [globalScope]) : ∃ scope, arena.scopes[id]? = some scope ∧ Encloses scope.span span := by
  obtain ⟨scope, found, starts, ends, _, closed⟩ := holds
  refine ⟨scope, found, starts, ?_⟩
  by_cases isGlobal : id = globalScope
  · obtain ⟨global, there, _, _, whole⟩ := laminar.global
    rw [isGlobal] at found
    obtain rfl := Option.mem_unique found there
    rw [whole]
    exact ends
  · refine closed fun isOpen => isGlobal ?_
    rw [opened] at isOpen
    exact mem_singleton.mp isOpen

/-- When only the global scope is open, every other scope ends inside its parent. -/
theorem Arena.Laminar.exists_parent (laminar : arena.Laminar length now) (le : now ≤ length)
    (opened : arena.opened = [globalScope]) {scope : Scope} (found : arena.scopes[id]? = some scope)
    (inner : id ≠ globalScope) : ∃ outer around, scope.parent = some outer ∧ outer < id ∧
      arena.scopes[outer]? = some around ∧ Encloses around.span scope.span := by
  obtain ⟨outer, around, parent, lt, there, starts, ends⟩ := laminar.outer found inner
  refine ⟨outer, around, parent, lt, there, starts, ?_⟩
  by_cases isGlobal : outer = globalScope
  · obtain ⟨global, isThere, _, _, whole⟩ := laminar.global
    rw [isGlobal] at there
    obtain rfl := Option.mem_unique there isThere
    have closed : id ∉ arena.opened := by
      rw [opened]
      exact fun isOpen => inner (mem_singleton.mp isOpen)
    rw [whole]
    exact Nat.le_trans (laminar.closed closed found).2 le
  · refine (ends ?_).2
    rw [opened]
    exact fun isOpen => isGlobal (mem_singleton.mp isOpen)

theorem Arena.Laminar.apart_of_not_around (laminar : arena.Laminar length now) {other : Nat} {scope further : Scope}
    (found : arena.scopes[id]? = some scope) (foundOther : arena.scopes[other]? = some further) (distinct : id ≠ other)
    (notInner : ¬Around arena.scopes id other) (notOuter : ¬Around arena.scopes other id) :
    scope.span.stop ≤ further.span.start ∨ further.span.stop ≤ scope.span.start := by
  rcases Nat.lt_or_gt_of_ne distinct with earlier | later
  · exact .inl ((laminar.apart found foundOther earlier).resolve_left notInner).2
  · exact .inr ((laminar.apart foundOther found later).resolve_left notOuter).2

theorem scopesNest_result {env : Env} {all : List Token} {state : State} (sound : Sound env all env.length none state)
    (opened : state.arena.opened = [Arena.globalScope]) : ScopesNest env.length (state.result env.length) := by
  have laminar := sound.placed.laminar
  have scopes := scopes_result env.length opened
  constructor <;> rw [scopes]
  · exact laminar.ids
  · obtain ⟨scope, found, parent, kind, span⟩ := laminar.global
    exact ⟨scope, found, kind, parent, span⟩
  · exact laminar.exists_parent sound.placed.ordered.le opened
  · exact laminar.apart_of_not_around
  · exact fun found => (sound.placed.decls found).encloses laminar opened

end Scopes

/-! ## Tables -/

/-- Every name in a table or in a scope leads to a declaration of that name. In a document that is not well-formed a
handler may have taken the place of a function that was declared in advance. -/
structure TablesLead (definitions : Definitions) (tokens : List Token) (analysis : Analysis) : Prop where
  ids : ∀ {id : Nat} {decl : Decl}, analysis.decls[id]? = some decl → decl.id = id
  functions : ∀ {name : String} {id : Nat}, analysis.functions.get? name = some id →
    ∃ decl, analysis.decls[id]? = some decl ∧ decl.name = name ∧
      (decl.kind = .func ∨ Astray definitions tokens decl)
  states : ∀ {name : String} {id : Nat}, analysis.states.get? name = some id →
    ∃ decl, analysis.decls[id]? = some decl ∧ decl.name = name ∧ decl.kind = .state
  names : ∀ {inside : Nat} {scope : Scope} {name : String} {id : Nat}, analysis.scopes[inside]? = some scope →
    scope.names.get? name = some id → ∃ decl, analysis.decls[id]? = some decl ∧ decl.name = name ∧
      (decl.scope = inside ∨ inside = Arena.globalScope ∧ Astray definitions tokens decl)
  wellFormed : (∀ diagnostic ∈ analysis.diagnostics, diagnostic.code ≠ .malformed) →
    ∀ decl ∈ analysis.decls, ¬Astray definitions tokens decl

theorem tablesLead_result {env : Env} {all : List Token} {state : State} (consistent : Consistent env all state)
    (length : Nat) (opened : state.arena.opened = [Arena.globalScope])
    (clear : state.Clean → ∀ decl, ¬Astray env.definitions all decl) :
    TablesLead env.definitions all (state.result length) := by
  refine ⟨consistent.ids, consistent.functions, consistent.states, fun {inside scope name id} found named => ?_,
    fun clean decl _ => clear (fun finding found => ?_) decl⟩
  · rw [scopes_result length opened] at found
    have bound : state.arena.named? inside name = some id := by
      rw [Arena.named?, Arena.get?, found]
      exact named
    obtain ⟨decl, there, rightName, _, place⟩ := consistent.names bound
    exact ⟨decl, there, rightName, place⟩
  · exact clean finding.diagnostic (mem_map_of_mem (mem_append_left _ found))

/-! ## References -/

/-- What a reference means has its name. A variable or parameter is declared in front of the reference, in a scope
around it. A label stands in the same callable. -/
structure RefersTo (analysis : Analysis) (ref : Ref) (decl : Decl) : Prop where
  name : decl.name = ref.name
  value : decl.kind = .var ∨ decl.kind = .param → decl.span.stop ≤ ref.span.start ∧
    ∃ scope, analysis.scopes[decl.scope]? = some scope ∧ Encloses scope.span ref.span
  label : decl.kind = .label → Encloses decl.fullSpan decl.span ∧ ∃ callable ∈ analysis.decls,
    IsCallable callable.kind ∧ Encloses callable.fullSpan decl.fullSpan ∧ Encloses callable.fullSpan ref.span

theorem refersTo_result {env : Env} {all : List Token} {state : State} {ref : Ref} {decl : Decl}
    (sound : Sound env all env.length none state) (opened : state.arena.opened = [Arena.globalScope])
    (resolution : Resolution none env.length state ref decl) : RefersTo (state.result env.length) ref decl := by
  refine ⟨resolution.name, fun isValue => ?_, fun isLabel => ?_⟩
  · obtain ⟨earlier, holds⟩ := resolution.value isValue
    rw [scopes_result env.length opened]
    exact ⟨earlier, holds.encloses sound.placed.laminar opened⟩
  · obtain ⟨named, owner, spans, around, aroundRef⟩ := resolution.label isLabel
    rcases spans with pending | ⟨id, callable, there, isCallable, rfl⟩
    · cases pending
    · exact ⟨named, callable, Array.mem_of_getElem? there, isCallable, around, aroundRef⟩

/-! ## Every document -/

/-- Ranges that are apart lie between characters of their text. -/
theorem Apart.inside {front text : List Char} {offset : Nat} {ranges : List Span} (apart : Apart offset ranges text)
    (reaches : byteLength front = offset) :
    ∀ range ∈ ranges, (slice? (front ++ text) range.start range.stop).isSome := by
  induction apart generalizing front with
  | nil => exact nofun
  | @cons _ range _ before body rest begins ends _ _ ih =>
    have start : byteLength (front ++ before ++ ['\n']) = range.start := by
      rw [byteLength_append, byteLength_append, reaches, begins]
      rfl
    have whole : front ++ (before ++ '\n' :: (body ++ rest)) = front ++ before ++ ['\n'] ++ (body ++ rest) := by simp
    refine forall_mem_cons.mpr ⟨?_, ?_⟩
    · rw [whole, ends, ← start, slice?_append]
      rfl
    · rw [whole, ← append_assoc]
      refine ih ?_
      rw [byteLength_append, start, ends]

/-- The disabled ranges of a preprocessed document lie between its characters. -/
theorem preprocess_inside (setting : Preprocess.Setting) (text : List Char) (path : Option Path)
    (cache : IncludeCache) :
    ∀ range ∈ (preprocess setting text path cache).1.disabled, (slice? text range.start range.stop).isSome :=
  @Apart.inside [] _ _ _ (Preprocess.Run.all_apart _ _ text cache) rfl

/-- A document with a disabled line, a jump out of a block, a statement that is not ended and braces inside a header. -/
def brokenSample : List Char :=
  ("#ifdef A\ninteger hidden(\n#endif\ninteger f(integer a) \x7b if (a) \x7b jump out; \x7d " ++
    "\x7b integer b = a; @out; b = f(b) \x7d \x7d default \x7b f( \x7b \x7d ").toList

def brokenSample.preprocessed : Preprocessed := (preprocess ⟨default, ⟨[]⟩, ∅⟩ brokenSample none {}).1

def brokenSample.analysis : Analysis :=
  analyze brokenSample (tokenize brokenSample brokenSample.preprocessed.disabled).tokens brokenSample.preprocessed {}

section Document

variable (text : List Char) (disabled : List Span) (pre : Preprocessed) (definitions : Definitions)

/-- The scopes of any document form a laminar tree: they are numbered in order, the global scope spans the document,
every other scope lies in its parent, scopes of which neither is around the other do not overlap, and names lie in the
scopes they are declared in. The disabled ranges lie between characters of the text, as those of a preprocessed document
do. -/
theorem analyze_scopesNest (inside : ∀ range ∈ disabled, (slice? text range.start range.stop).isSome = true) :
    ScopesNest (byteLength text) (analyze text (tokenize text disabled).tokens pre definitions) := by
  obtain ⟨state, result, sound, opened, _⟩ :=
    analyze_eq_result text pre definitions (tokenize_inOrder_of_inside text disabled inside)
  rw [result]
  exact scopesNest_result sound opened

theorem scopesNest_brokenSample :
    brokenSample.preprocessed.disabled = [⟨9, 25⟩] ∧ brokenSample.analysis.scopes.size = 8 ∧
      ScopesNest (byteLength brokenSample) brokenSample.analysis := by
  have read : brokenSample.preprocessed.disabled = [⟨9, 25⟩] ∧
      brokenSample.analysis.scopes.size = 8 := by decide +kernel
  exact ⟨read.1, read.2, analyze_scopesNest _ _ _ _ (preprocess_inside _ _ _ _)⟩

/-- Every reference that means a declaration is resolved rightly, whatever the document looks like. -/
theorem analyze_refersTo (inside : ∀ range ∈ disabled, (slice? text range.start range.stop).isSome = true) :
    ∀ ref ∈ (analyze text (tokenize text disabled).tokens pre definitions).refs, ∀ id, ref.target = .decl id →
      ∃ decl, (analyze text (tokenize text disabled).tokens pre definitions).decls[id]? = some decl ∧
        RefersTo (analyze text (tokenize text disabled).tokens pre definitions) ref decl := by
  obtain ⟨state, result, sound, opened, _⟩ :=
    analyze_eq_result text pre definitions (tokenize_inOrder_of_inside text disabled inside)
  rw [result]
  intro ref found id target
  obtain ⟨decl, there, resolution⟩ := sound.resolves ref (Array.mem_toList_iff.mpr found) id target
  exact ⟨decl, there, refersTo_result sound opened resolution⟩

/-- A jump and a local variable of the sample are resolved. -/
theorem refersTo_brokenSample :
    (∃ decl, brokenSample.analysis.decls[4]? = some decl ∧
        RefersTo brokenSample.analysis ⟨"out", ⟨69, 72⟩, .decl 4⟩ decl) ∧
      ∃ decl, brokenSample.analysis.decls[3]? = some decl ∧
        RefersTo brokenSample.analysis ⟨"b", ⟨105, 106⟩, .decl 3⟩ decl := by
  have resolved := analyze_refersTo brokenSample brokenSample.preprocessed.disabled brokenSample.preprocessed {}
    (preprocess_inside _ _ _ _)
  have refs : brokenSample.analysis.refs[1]? = some ⟨"out", ⟨69, 72⟩, .decl 4⟩ ∧
      brokenSample.analysis.refs[4]? = some ⟨"b", ⟨105, 106⟩, .decl 3⟩ := by
    decide +kernel
  exact ⟨resolved _ (Array.mem_of_getElem? refs.1) 4 rfl, resolved _ (Array.mem_of_getElem? refs.2) 3 rfl⟩

/-- The tables of any document lead to declarations of the right name, kind and scope, but for handlers that the light
scan took for functions. A well-formed document has no such handlers. -/
theorem analyze_tablesLead :
    TablesLead definitions ((tokenize text disabled).tokens.filter fun token => !token.isTrivia)
      (analyze text (tokenize text disabled).tokens pre definitions) := by
  obtain ⟨stop, ordered⟩ := exists_tokenize_inOrder text disabled
  obtain ⟨state, result, sound, opened, clear⟩ := analyze_eq_result text pre definitions ordered
  rw [result]
  exact tablesLead_result sound.consistent _ opened clear

end Document

/-- A parameter list that is not closed hides the braces of a state from the light scan. -/
def openParamsSample : List Char := "foo( \x7d default \x7b a ) ; x() \x7b \x7d \x7d".toList

/-- A handler can stand in the table of functions and in the global scope. -/
theorem handler_among_functions :
    let analysis := analyze openParamsSample (tokenize openParamsSample []).tokens {} {}
    analysis.functions.get? "x" = some 0 ∧ analysis.decls[0]?.map Decl.kind = some .event ∧
      analysis.decls[0]?.map Decl.scope = some 2 ∧
      analysis.scopes[0]?.bind (fun scope => scope.names.get? "x") = some 0 := by
  decide +kernel

end ScriptLint
