import ScriptLint.Proofs.AnalyzedDocument

/-!
# Names that can be seen

What can be seen at an offset is found from the spans of the scopes, once the document was read. A reference was
resolved before, from the scopes that were open. Both agree on what a reference means, unless something hides it from
the offset: a variable of the same name whose value holds the reference, a variable of a block that ends where the
reference starts, or a handler of the same name further down in its state.
-/

namespace ScriptLint

open List

namespace Analysis

/-! ## What is shown -/

section Shown

variable {decl : Decl} {shown decls front back : List Decl}

theorem mem_foldl_addVisible (found : decl ∈ shown) : decl ∈ decls.foldl addVisible shown := by
  induction decls generalizing shown with
  | nil => exact found
  | cons _ _ ih =>
    refine ih ?_
    rw [addVisible]
    split
    · exact found
    · exact mem_append_left _ found

theorem mem_of_mem_foldl_addVisible (found : decl ∈ decls.foldl addVisible shown) : decl ∈ shown ∨ decl ∈ decls := by
  induction decls generalizing shown with
  | nil => exact .inl found
  | cons first _ ih =>
    rcases ih found with before | later
    · rw [addVisible] at before
      split at before
      · exact .inl before
      · refine (mem_append.mp before).imp_right fun same => ?_
        rw [mem_singleton.mp same]
        exact mem_cons_self
    · exact .inr (mem_cons_of_mem first later)

/-- The first declaration of a name is shown. -/
theorem mem_addVisible_of_first (first : ∀ other ∈ front, other.name ≠ decl.name) :
    decl ∈ (front ++ decl :: back).foldl addVisible [] := by
  rw [foldl_append, foldl_cons]
  refine mem_foldl_addVisible ?_
  have free : ((front.foldl addVisible []).any fun earlier => earlier.name == decl.name) = false := by
    rw [any_eq_false]
    intro other found
    have listed := (mem_of_mem_foldl_addVisible found).resolve_left not_mem_nil
    simpa using first other listed
  rw [addVisible, free]
  exact mem_append_right _ (mem_singleton_self decl)

end Shown

/-! ## The innermost scope -/

/-- The deeper one of two scopes, the later one if they are as deep. -/
def deepen (best : Option Scope) (scope : Scope) : Option Scope :=
  match best with
  | none => some scope
  | some other => if atLeastAsDeep scope other then some scope else best

/-- No scope that comes later is as deep as the deepest one. -/
theorem exists_foldl_deepen (first : Scope) (scopes : List Scope) :
    ∃ front best back, scopes.foldl deepen (some first) = some best ∧ first :: scopes = front ++ best :: back ∧
      ∀ other ∈ back, atLeastAsDeep other best = false := by
  induction scopes generalizing first with
  | nil => exact ⟨[], first, [], rfl, rfl, nofun⟩
  | cons scope scopes ih =>
    rw [foldl_cons, deepen]
    split
    · obtain ⟨front, best, back, picked, whole, last⟩ := ih scope
      exact ⟨first :: front, best, back, picked, congrArg (first :: ·) whole, last⟩
    · rename_i shallower
      obtain ⟨front, best, back, picked, whole, last⟩ := ih first
      cases front with
      | nil =>
        obtain ⟨rfl, rfl⟩ := List.cons.inj whole
        refine ⟨[], first, scope :: scopes, picked, rfl, forall_mem_cons.mpr ⟨?_, last⟩⟩
        exact Bool.eq_false_iff.mpr shallower
      | cons _ front =>
        obtain ⟨rfl, rfl⟩ := List.cons.inj whole
        exact ⟨first :: scope :: front, best, back, picked, rfl, last⟩

theorem atLeastAsDeep_of_encloses {scope other : Scope} (encloses : Encloses other.span scope.span) :
    atLeastAsDeep scope other := by
  obtain ⟨starts, ends⟩ := encloses
  rw [atLeastAsDeep]
  split
  · simpa using ends
  · rename_i different
    simp only [beq_iff_eq] at different
    simp only [decide_eq_true_eq]
    omega

/-- When some scope is around an offset, the innermost one is, and it encloses no later one that is. -/
theorem exists_innermostAt {analysis : Analysis} {offset id : Nat} {scope : Scope}
    (ids : ∀ {id : Nat} {scope : Scope}, analysis.scopes[id]? = some scope → scope.id = id)
    (found : analysis.scopes[id]? = some scope) (touches : scope.span.touches offset) :
    ∃ best, analysis.scopes[analysis.innermostAt offset]? = some best ∧ best.span.touches offset ∧
      (analysis.innermostAt offset < id → ¬Encloses best.span scope.span) := by
  let touching := analysis.scopes.toList.filter fun scope => scope.span.touches offset
  have listed : scope ∈ touching :=
    mem_filter.mpr ⟨Array.mem_toList_iff.mpr (Array.mem_of_getElem? found), touches⟩
  obtain ⟨first, more, whole⟩ := exists_cons_of_ne_nil (ne_nil_of_mem listed)
  obtain ⟨front, best, back, picked, split, last⟩ := exists_foldl_deepen first more
  have innermost : analysis.innermostAt offset = best.id := by
    change ((touching.foldl deepen none).map Scope.id).getD _ = _
    rw [whole]
    change ((more.foldl deepen (some first)).map Scope.id).getD _ = _
    rw [picked]
    rfl
  have sorted : touching.Pairwise fun scope later => scope.id < later.id := by
    refine List.Pairwise.filter _ (pairwise_iff_getElem.mpr fun i j small large lt => ?_)
    have early := ids (Array.getElem?_toList ▸ getElem?_eq_getElem small)
    have late := ids (Array.getElem?_toList ▸ getElem?_eq_getElem large)
    rw [early, late]
    exact lt
  rw [whole, split] at listed sorted
  obtain ⟨isScope, touchesBest⟩ := mem_filter.mp (show best ∈ touching by rw [whole, split]; simp)
  obtain ⟨number, there⟩ := getElem?_of_mem isScope
  rw [Array.getElem?_toList] at there
  refine ⟨best, by rw [innermost, ids there, there], touchesBest, fun earlier encloses => ?_⟩
  rw [innermost, ← ids found] at earlier
  -- A scope with a larger number comes later in the list.
  have later : scope ∈ back := by
    rcases mem_append.mp listed with before | behind
    · have := (pairwise_append.mp sorted).2.2 scope before best mem_cons_self
      omega
    · refine (mem_cons.mp behind).resolve_left fun same => ?_
      rw [same] at earlier
      exact Nat.lt_irrefl _ earlier
  have shallower := last scope later
  rw [atLeastAsDeep_of_encloses encloses] at shallower
  cases shallower

end Analysis

/-! ## Chains of scopes -/

theorem IsParent.unique {scopes : Array Scope} {first second id : Nat} (parent : IsParent scopes first id)
    (again : IsParent scopes second id) : first = second := by
  obtain ⟨scope, there, isParent⟩ := parent
  obtain ⟨same, thereSame, isParentSame⟩ := again
  obtain rfl := Option.mem_unique there thereSame
  exact Option.mem_unique isParent isParentSame

namespace Stack

variable {scopes : Array Scope} {id outer : Nat} {rest other : List Nat}

/-- The scopes around a scope are known from it. -/
theorem unique (stack : Stack scopes (id :: rest)) (again : Stack scopes (id :: other)) : rest = other := by
  induction rest generalizing id other with
  | nil =>
    cases stack with
    | global =>
      cases again with
      | global => rfl
      | inner _ lt => exact absurd lt (Nat.not_lt_zero _)
  | cons _ _ ih =>
    cases stack with
    | inner parent lt more =>
      cases again with
      | global => exact absurd lt (Nat.not_lt_zero _)
      | inner parentAgain _ moreAgain =>
        obtain rfl := parent.unique parentAgain
        rw [ih more moreAgain]

theorem mem_of_around (root : ∀ outer, ¬IsParent scopes outer Arena.globalScope) (around : Around scopes outer id)
    (stack : Stack scopes (id :: rest)) : outer ∈ rest := by
  induction around generalizing rest with
  | single parent =>
    cases stack with
    | global => exact absurd parent (root _)
    | inner parentAgain =>
      obtain rfl := parent.unique parentAgain
      exact mem_cons_self
  | tail _ parent ih =>
    cases stack with
    | global => exact absurd parent (root _)
    | inner parentAgain _ more =>
      obtain rfl := parent.unique parentAgain
      exact mem_cons_of_mem _ (ih more)

end Stack

namespace Arena.Laminar

variable {arena : Arena} {length now id : Nat} {scope : Scope}

theorem root (laminar : arena.Laminar length now) (outer : Nat) : ¬IsParent arena.scopes outer globalScope := by
  rintro ⟨scope, there, parent⟩
  obtain ⟨global, thereGlobal, none, _⟩ := laminar.global
  obtain rfl := Option.mem_unique there thereGlobal
  rw [none] at parent
  cases parent

theorem exists_stack (laminar : arena.Laminar length now) (found : arena.scopes[id]? = some scope) :
    ∃ rest, Stack arena.scopes (id :: rest) := by
  induction id using Nat.strongRecOn generalizing scope with
  | ind id ih =>
    by_cases isGlobal : id = globalScope
    · rw [isGlobal]
      exact ⟨[], .global⟩
    · obtain ⟨outer, around, parent, lt, there, _⟩ := laminar.outer found isGlobal
      obtain ⟨rest, stack⟩ := ih outer lt there
      exact ⟨outer :: rest, .inner ⟨scope, found, parent⟩ lt stack⟩

/-- When only the global scope is open, a scope lies in those around it. -/
theorem encloses_of_stack (laminar : arena.Laminar length now) (le : now ≤ length)
    (opened : arena.opened = [globalScope])
    {rest : List Nat} (stack : Stack arena.scopes (id :: rest)) (found : arena.scopes[id]? = some scope) :
    ∀ outer ∈ rest, ∃ around, arena.scopes[outer]? = some around ∧ Encloses around.span scope.span := by
  induction rest generalizing id scope with
  | nil => exact nofun
  | cons _ _ ih =>
    cases stack with
    | inner parent lt more =>
      have inner := Nat.ne_of_gt (Nat.zero_lt_of_lt lt)
      obtain ⟨outer, around, isParent, _, there, encloses⟩ := laminar.exists_parent le opened found inner
      obtain rfl := parent.unique ⟨scope, found, isParent⟩
      refine forall_mem_cons.mpr ⟨⟨around, there, encloses⟩, fun further isAround => ?_⟩
      obtain ⟨wider, thereWider, enclosesAround⟩ := ih more there further isAround
      exact ⟨wider, thereWider, enclosesAround.trans encloses⟩

end Arena.Laminar

namespace Analysis

/-- From a scope outward come the scopes around it. -/
theorem enclosing_of_stack {analysis : Analysis} {id : Nat} {rest : List Nat} {steps : Nat}
    (root : ∃ scope, analysis.scopes[Arena.globalScope]? = some scope ∧ scope.parent = none)
    (stack : Stack analysis.scopes (id :: rest)) (enough : (id :: rest).length ≤ steps) :
    analysis.enclosing steps id = (id :: rest).filterMap (analysis.scopes[·]?) := by
  induction rest generalizing id steps with
  | nil =>
    obtain ⟨steps, rfl⟩ := Nat.exists_eq_succ_of_ne_zero (Nat.ne_of_gt enough)
    cases stack with
    | global =>
      obtain ⟨scope, there, none⟩ := root
      simp [enclosing, there, none]
  | cons _ _ ih =>
    obtain ⟨steps, rfl⟩ := Nat.exists_eq_succ_of_ne_zero (Nat.ne_of_gt (Nat.zero_lt_of_lt enough))
    cases stack with
    | inner parent _ more =>
      obtain ⟨scope, there, isParent⟩ := parent
      have further := ih more (Nat.le_of_succ_le_succ enough)
      rw [enclosing, there]
      dsimp only
      rw [isParent, filterMap_cons_some there, ← further]
      rfl

/-! ## What hides a declaration -/

/-- How a declaration can be shown at a reference that means another one of the same name. -/
inductive Obscures (analysis : Analysis) (ref : Ref) (other : Decl) : Prop where
  /-- The reference stands in the value of a variable. -/
  | value (kind : other.kind = .var) (starts : other.span.stop ≤ ref.span.start)
      (ends : ref.span.stop ≤ other.fullSpan.stop)
  /-- The scope ends where the reference starts. -/
  | edge {scope : Scope} (there : analysis.scopes[other.scope]? = some scope) (ends : scope.span.stop = ref.span.start)
  /-- A handler comes later in the state. -/
  | handler {scope : Scope} (kind : other.kind = .event) (behind : ref.span.stop ≤ other.span.start)
      (there : analysis.scopes[other.scope]? = some scope) (encloses : Encloses scope.span ref.span)

section Chains

variable {analysis : Analysis} {state : State} {length id outer : Nat} {ref : Ref} {inner rest : List Nat}

theorem touches_of_encloses {outer inner : Span} (encloses : Encloses outer inner) (filled : inner.start < inner.stop) :
    outer.touches inner.start := by
  obtain ⟨starts, ends⟩ := encloses
  have before : inner.start ≤ outer.stop := by omega
  simp [Span.touches, starts, before]

section

variable (sighting : Sighting length state ref id inner outer rest)
  (laminar : state.arena.Laminar length state.prevEnd) (le : state.prevEnd ≤ length)
  (opened : state.arena.opened = [Arena.globalScope]) (scopes : analysis.scopes = state.arena.scopes)

include sighting laminar le opened scopes

/-- The innermost scope at a reference is the one that was open there, or it ends where the reference starts. Then it
lies in the one that was open. -/
theorem Sighting.innermost_cases {first : Nat} {more : List Nat} (chain : inner ++ outer :: rest = first :: more) :
    ∃ best, state.arena.scopes[analysis.innermostAt ref.span.start]? = some best ∧
      best.span.touches ref.span.start ∧ (analysis.innermostAt ref.span.start = first ∨
        Around state.arena.scopes first (analysis.innermostAt ref.span.start)) := by
  have listed : first ∈ inner ++ outer :: rest := by rw [chain]; exact mem_cons_self
  obtain ⟨deepest, there, encloses⟩ := (sighting.holds first listed).encloses laminar opened
  have touches := touches_of_encloses encloses sighting.filled
  have ids {id : Nat} {scope : Scope} (found : analysis.scopes[id]? = some scope) : scope.id = id :=
    laminar.ids (scopes ▸ found)
  obtain ⟨best, thereBest, touchesBest, deep⟩ := exists_innermostAt ids (by rw [scopes]; exact there) touches
  generalize analysis.innermostAt ref.span.start = innermost at thereBest deep ⊢
  rw [scopes] at thereBest
  refine ⟨best, thereBest, touchesBest, ?_⟩
  have stack := sighting.stack
  rw [chain] at stack
  by_cases isOpen : innermost ∈ first :: more
  · refine .inl ((mem_cons.mp isOpen).resolve_right fun further => ?_)
    -- A scope further out would enclose the one that was innermost.
    obtain ⟨around, thereAround, enclosesFirst⟩ := laminar.encloses_of_stack le opened stack there innermost further
    obtain rfl := Option.mem_unique thereAround thereBest
    exact deep (stack.lt innermost further) enclosesFirst
  · right
    have filled := sighting.filled
    obtain ⟨starts, ends⟩ := encloses
    simp only [Span.touches, Bool.and_eq_true, decide_eq_true_eq] at touchesBest
    rcases Nat.lt_or_gt_of_ne (fun same : first = innermost => isOpen (same ▸ mem_cons_self)) with lt | gt
    · refine (laminar.apart there thereBest lt).resolve_right fun ⟨_, apart⟩ => ?_
      omega
    · -- It would have to end in front of a scope that starts before the reference.
      exfalso
      rcases laminar.apart thereBest there gt with around | ⟨_, apart⟩
      · exact isOpen (mem_cons_of_mem _ (stack.mem_of_around laminar.root around))
      · have before := sighting.starts first listed (Nat.ne_of_gt (Nat.zero_lt_of_lt gt)) deepest there
        omega

/-- What is asked at a reference are the scopes that were open there, perhaps behind some that end where it starts. -/
theorem Sighting.enclosing_eq :
    ∃ edges, analysis.enclosing (analysis.scopes.size + 1) (analysis.innermostAt ref.span.start) =
        (edges ++ (inner ++ outer :: rest)).filterMap (analysis.scopes[·]?) ∧
      ∀ number ∈ edges, number ≠ Arena.globalScope ∧
        ∀ scope, analysis.scopes[number]? = some scope → scope.span.stop = ref.span.start := by
  obtain ⟨first, more, chain⟩ := exists_cons_of_ne_nil (show inner ++ outer :: rest ≠ [] by simp)
  have stack := sighting.stack
  rw [chain] at stack
  have root : ∃ scope, analysis.scopes[Arena.globalScope]? = some scope ∧ scope.parent = none := by
    obtain ⟨scope, there, none, _⟩ := laminar.global
    exact ⟨scope, by rw [scopes]; exact there, none⟩
  have whole {id : Nat} {around : List Nat} (stack : Stack state.arena.scopes (id :: around))
    (lt : id < analysis.scopes.size) :
      analysis.enclosing (analysis.scopes.size + 1) id = (id :: around).filterMap (analysis.scopes[·]?) := by
    refine enclosing_of_stack root (by rw [scopes]; exact stack) (Nat.le_trans stack.length_le ?_)
    omega
  have inArena : first < analysis.scopes.size := by
    obtain ⟨scope, there, _⟩ := sighting.holds first (by rw [chain]; exact mem_cons_self)
    rw [scopes]
    exact (Array.getElem?_eq_some_iff.mp there).1
  obtain ⟨best, thereBest, touches, place⟩ := sighting.innermost_cases laminar le opened scopes chain
  rcases place with same | around
  · refine ⟨[], ?_, nofun⟩
    rw [same, chain]
    exact whole stack inArena
  · generalize analysis.innermostAt ref.span.start = innermost at thereBest around ⊢
    have inArenaBest : innermost < analysis.scopes.size := by
      rw [scopes]
      exact (Array.getElem?_eq_some_iff.mp thereBest).1
    obtain ⟨all, stackBest⟩ := laminar.exists_stack thereBest
    obtain ⟨middle, behind, rfl⟩ := append_of_mem (stackBest.mem_of_around laminar.root around)
    have encloses := laminar.encloses_of_stack le opened stackBest thereBest
    have asked := whole stackBest inArenaBest
    rw [← cons_append] at stackBest asked
    obtain rfl : behind = more := stackBest.of_append.unique stack
    refine ⟨innermost :: middle, by rw [chain]; exact asked, fun number found => ?_⟩
    -- What lies further in than the scopes that were open is none of them.
    obtain ⟨front, back, split⟩ := append_of_mem found
    have inside : first < number := by
      rw [split, append_assoc] at stackBest
      exact stackBest.of_append.lt first (by simp)
    have notOpen : number ∉ inner ++ outer :: rest := by
      rw [chain]
      refine fun isOpen => (mem_cons.mp isOpen).elim (Nat.ne_of_gt inside) fun further => ?_
      exact Nat.lt_asymm inside (stack.lt number further)
    refine ⟨Nat.ne_of_gt (Nat.zero_lt_of_lt inside), fun scope there => ?_⟩
    rw [scopes] at there
    have around : Encloses scope.span best.span := by
      rcases mem_cons.mp found with rfl | further
      · obtain rfl := Option.mem_unique there thereBest
        exact ⟨Nat.le_refl _, Nat.le_refl _⟩
      · obtain ⟨known, thereKnown, around⟩ := encloses number (mem_append_left _ further)
        obtain rfl := Option.mem_unique there thereKnown
        exact around
    obtain ⟨starts, ends⟩ := around
    have filled := sighting.filled
    simp only [Span.touches, Bool.and_eq_true, decide_eq_true_eq] at touches
    rcases sighting.apart there with isOpen | ⟨_, stops⟩ | begins
    · exact absurd isOpen notOpen
    · omega
    · omega

end

end Chains

/-! ## What is shown at a reference -/

section Names

variable {analysis : Analysis} {offset : Nat} {scopes : List Scope} {decl : Decl}

/-- The declarations of some scopes that are visible at an offset. -/
def visibleOf (analysis : Analysis) (offset : Nat) (scopes : List Scope) : List Decl :=
  ((scopes.flatMap fun scope => scope.names.values).filterMap analysis.decl?).filter (isVisibleAt offset)

theorem visibleAt_eq (analysis : Analysis) (offset : Nat) :
    analysis.visibleAt offset =
      (analysis.visibleOf offset (analysis.enclosing (analysis.scopes.size + 1) (analysis.innermostAt offset)) ++
        analysis.states.values.filterMap analysis.decl?).foldl addVisible [] := rfl

theorem visibleOf_append (analysis : Analysis) (offset : Nat) (inner outer : List Scope) :
    analysis.visibleOf offset (inner ++ outer) =
      analysis.visibleOf offset inner ++ analysis.visibleOf offset outer := by
  simp [visibleOf]

theorem mem_visibleOf_iff : decl ∈ analysis.visibleOf offset scopes ↔
    ∃ scope ∈ scopes, ∃ name id, scope.names.get? name = some id ∧ analysis.decls[id]? = some decl ∧
      isVisibleAt offset decl := by
  simp only [visibleOf, mem_filter, mem_filterMap, mem_flatMap, NameMap.values, mem_map,
    NameMap.get?_eq_some_iff, decl?]
  constructor
  · rintro ⟨⟨_, ⟨scope, listed, ⟨name, id⟩, entry, rfl⟩, there⟩, visible⟩
    exact ⟨scope, listed, name, id, entry, there, visible⟩
  · rintro ⟨scope, listed, name, id, entry, there, visible⟩
    exact ⟨⟨id, ⟨scope, listed, (name, id), entry, rfl⟩, there⟩, visible⟩

/-- Of the declarations of a name the first is shown. -/
theorem exists_shown {front back : List Decl} (found : decl ∈ front) :
    ∃ shown ∈ front, shown.name = decl.name ∧ shown ∈ (front ++ back).foldl addVisible [] := by
  cases first : front.find? fun other => other.name == decl.name with
  | none => exact absurd (find?_eq_none.mp first decl found) (by simp)
  | some shown =>
    obtain ⟨same, early, late, rfl, others⟩ := find?_eq_some_iff_append.mp first
    refine ⟨shown, by simp, eq_of_beq same, ?_⟩
    rw [append_assoc]
    refine mem_addVisible_of_first fun other listed => ?_
    rw [eq_of_beq same]
    simpa using others other listed

end Names

section Shows

variable {env : Env} {all : List Token} {state : State} {ref : Ref} {id outer number other : Nat} {decl shown : Decl}
  {inner rest edges : List Nat} {scope : Scope} {name : String}

/-- What a scope calls by the name of a reference, from the innermost one to the one that the name was found in, is what
the reference means or hides it. -/
theorem Sighting.obscures (sighting : Sighting env.length state ref id inner outer rest)
    (sound : Sound env all env.length none state) (opened : state.arena.opened = [Arena.globalScope])
    (atEdge : ∀ number ∈ edges, number ≠ Arena.globalScope ∧
      ∀ scope, state.arena.scopes[number]? = some scope → scope.span.stop = ref.span.start)
    (listed : number ∈ edges ++ (inner ++ [outer])) (there : state.arena.scopes[number]? = some scope)
    (entry : state.arena.named? number ref.name = some other) (found : state.decls[other]? = some shown)
    (visible : isVisibleAt ref.span.start shown) : other = id ∨ Obscures (state.result env.length) ref shown := by
  have scopes := scopes_result env.length opened
  have place (notGlobal : number ≠ Arena.globalScope) : shown.scope = number := by
    obtain ⟨known, thereKnown, _, _, place⟩ := sound.consistent.names entry
    obtain rfl := Option.mem_unique thereKnown found
    exact place.resolve_right fun ⟨isGlobal, _⟩ => notGlobal isGlobal
  rcases mem_append.mp listed with isEdge | isOpen
  · obtain ⟨notGlobal, ends⟩ := atEdge number isEdge
    exact .inr (.edge (by rw [scopes, place notGlobal]; exact there) (ends scope there))
  · rcases mem_append.mp isOpen with isInner | isOuter
    · obtain ⟨known, thereKnown, late⟩ := sighting.late number isInner other entry
      obtain rfl := Option.mem_unique thereKnown found
      cases late with
      | value kind starts ends => exact .inr (.value kind starts ends)
      | behind kind behind =>
        -- A variable or a parameter that comes later is not visible yet.
        have filled := sighting.filled
        have isEvent : known.kind = .event := by
          rcases kind with isVar | isParam | isEvent
          · simp [isVisibleAt, isVar] at visible
            omega
          · simp [isVisibleAt, isParam] at visible
            omega
          · exact isEvent
        obtain ⟨around, thereAround, encloses⟩ :=
          (sighting.holds number (mem_append_left _ isInner)).encloses sound.placed.laminar opened
        exact .inr (.handler isEvent behind
          (by rw [scopes, place (sighting.stack.ne_global isInner)]; exact thereAround) encloses)
    · rw [mem_singleton.mp isOuter, sighting.named] at entry
      exact .inl (Option.some.inj entry).symm

theorem shows_result (sound : Sound env all env.length none state) (opened : state.arena.opened = [Arena.globalScope])
    (found : ref ∈ state.refs.toList) (target : ref.target = .decl id)
    (there : state.decls[id]? = some decl) (isValue : decl.kind = .var ∨ decl.kind = .param) :
    decl ∈ (state.result env.length).visibleAt ref.span.start ∨
      ∃ other ∈ (state.result env.length).visibleAt ref.span.start, other.name = ref.name ∧
        Obscures (state.result env.length) ref other := by
  have scopes := scopes_result env.length opened
  obtain ⟨inner, outer, rest, sighting⟩ := sound.watched.sighted ref found id ⟨target, decl, there, isValue⟩
  obtain ⟨known, thereKnown, resolution⟩ := sound.resolves ref found id target
  obtain rfl := Option.mem_unique thereKnown there
  obtain ⟨edges, asked, atEdge⟩ := sighting.enclosing_eq sound.placed.laminar sound.placed.ordered.le opened scopes
  -- The scopes up to the one that the name was found in come first.
  have split : edges ++ (inner ++ outer :: rest) = edges ++ (inner ++ [outer]) ++ rest := by simp
  rw [scopes, split, filterMap_append] at asked
  rw [visibleAt_eq, scopes, asked, visibleOf_append, append_assoc]
  have visible : known ∈ (state.result env.length).visibleOf ref.span.start
      ((edges ++ (inner ++ [outer])).filterMap (state.arena.scopes[·]?)) := by
    obtain ⟨scope, thereScope, entry⟩ := Option.bind_eq_some_iff.mp sighting.named
    refine mem_visibleOf_iff.mpr ⟨scope, mem_filterMap.mpr ⟨outer, by simp, thereScope⟩, ref.name, id, entry, there, ?_⟩
    have filled := sound.watched.filled there (isValue.imp_right .inl)
    have starts := Nat.le_trans filled (resolution.value isValue).1
    rw [isVisibleAt, decide_eq_true starts, Bool.or_true]
  obtain ⟨shown, listed, sameName, isShown⟩ := exists_shown visible
  obtain ⟨scope, isAsked, name, other, entry, thereShown, isVisible⟩ := mem_visibleOf_iff.mp listed
  obtain ⟨number, isListed, thereScope⟩ := mem_filterMap.mp isAsked
  have bound : state.arena.named? number name = some other := by
    rw [Arena.named?, Arena.get?, thereScope]
    exact entry
  have rightName := sameName.trans resolution.name
  obtain rfl : name = ref.name := by
    obtain ⟨decl, thereDecl, isNamed, _⟩ := sound.consistent.names bound
    obtain rfl := Option.mem_unique thereDecl thereShown
    exact isNamed.symm.trans rightName
  rw [scopes] at atEdge
  rcases sighting.obscures sound opened atEdge isListed thereScope bound thereShown isVisible with same | obscures
  · rw [same] at thereShown
    obtain rfl := Option.mem_unique thereShown there
    exact .inl isShown
  · exact .inr ⟨shown, isShown, rightName, obscures⟩

end Shows

end Analysis

open Text Analysis

section Document

variable (text : List Char) (disabled : List Span) (pre : Preprocessed) (definitions : Definitions)

/-- What can be seen at a reference to a variable or a parameter agrees with what the reference means, in every
document, unless another declaration of the name hides it there. Then that one is shown. -/
theorem analyze_shows (inside : ∀ range ∈ disabled, (slice? text range.start range.stop).isSome = true) :
    ∀ ref ∈ (analyze text (tokenize text disabled).tokens pre definitions).refs, ∀ (id : Nat) (decl : Decl),
      ref.target = .decl id → (analyze text (tokenize text disabled).tokens pre definitions).decls[id]? = some decl →
      (decl.kind = .var ∨ decl.kind = .param) →
      decl ∈ (analyze text (tokenize text disabled).tokens pre definitions).visibleAt ref.span.start ∨
        ∃ other ∈ (analyze text (tokenize text disabled).tokens pre definitions).visibleAt ref.span.start,
          other.name = ref.name ∧
          Obscures (analyze text (tokenize text disabled).tokens pre definitions) ref other := by
  obtain ⟨state, result, sound, opened, _⟩ :=
    analyze_eq_result text pre definitions (tokenize_inOrder_of_inside text disabled inside)
  rw [result]
  intro ref found id decl target there isValue
  have shows := shows_result sound opened (Array.mem_toList_iff.mpr found) target there isValue
  exact shows

end Document

/-- The local variable that is assigned in the sample is shown where it is, or hidden. -/
theorem shows_brokenSample :
    ∃ decl, brokenSample.analysis.decls[3]? = some decl ∧ decl.kind = .var ∧
      (decl ∈ brokenSample.analysis.visibleAt 105 ∨
        ∃ other ∈ brokenSample.analysis.visibleAt 105, other.name = "b" ∧
          Obscures brokenSample.analysis ⟨"b", ⟨105, 106⟩, .decl 3⟩ other) := by
  have refs : brokenSample.analysis.refs[4]? = some ⟨"b", ⟨105, 106⟩, .decl 3⟩ := by decide +kernel
  have decls : brokenSample.analysis.decls[3]?.map Decl.kind = some .var := by decide +kernel
  obtain ⟨decl, there, kind⟩ := Option.map_eq_some_iff.mp decls
  refine ⟨decl, there, kind, ?_⟩
  exact analyze_shows brokenSample brokenSample.preprocessed.disabled brokenSample.preprocessed {}
    (preprocess_inside _ _ _ _) _ (Array.mem_of_getElem? refs) 3 decl rfl there (.inl kind)

/-- What the reference at an offset means and what is shown there, in a document without definitions, and whether
anything in the document is malformed. -/
def meantAndShown (source : String) (offset : Nat) : Option Target × List Nat × Bool :=
  let analysis := analyze source.toList (tokenize source.toList []).tokens {} {}
  ((analysis.refAt? offset).map Ref.target, (analysis.visibleAt offset).map Decl.id,
    analysis.diagnostics.any fun diagnostic => diagnostic.code == .malformed)

/-- What a reference means can be hidden from where it stands: by the variable whose value it is part of, by a variable
of a block that ends in front of it, and by a handler further down. -/
theorem meant_but_hidden :
    meantAndShown "integer x = 1; f() \x7b integer x = x; \x7d" 33 = (some (.decl 1), [2, 0], false) ∧
      meantAndShown "f() \x7b integer x; \x7b integer x; \x7dx = 1; \x7d" 31 = (some (.decl 1), [2, 0], false) ∧
      meantAndShown "integer x; default \x7b a() \x7b x = 1; \x7d x() \x7b \x7d \x7d" 27 =
        (some (.decl 1), [2, 3, 0], false) := by
  decide +kernel

end ScriptLint
