import ScriptLint.Proofs.Readings

/-!
# What holds when a document was read

The pieces of a document are read one after the other, and each begins where the one before it has ended. So a name that
is read as that of a callable does not stand behind the word `state`, and a declaration made in advance for it is that
of a function.
-/

namespace ScriptLint.Analysis

open List

/-- Reading stands behind some of the tokens, where the next piece can begin, inside some braces. -/
structure Stands (all read : List Token) (depth : Nat) (state : State) : Prop where
  whole : all = read ++ state.rest
  settled : read = [] ∨ Settled read state.rest
  level : state.rest = [] ∨ braceDepth 0 read = depth

section Names

variable {all read used behind front : List Token} {depth stop : Nat} {name : Token} {before after state : State}

/-- While a token is left, the level is that of the braces in front of it. -/
theorem Stands.level_of_rest (stands : Stands all read depth state) (rest : state.rest = front ++ name :: behind) :
    braceDepth 0 read = depth := by
  refine stands.level.resolve_left fun none => ?_
  rw [rest] at none
  simp at none

theorem Stands.next (stands : Stands all read depth before) (rest : before.rest = used ++ after.rest)
    (settled : Settled used after.rest) (level : after.rest = [] ∨ braceDepth depth used = depth) :
    Stands all (read ++ used) depth after := by
  refine ⟨by rw [stands.whole, rest, append_assoc], .inr (settled.prepend read), ?_⟩
  rcases stands.level with none | even
  · rw [none] at rest
    exact .inl (append_eq_nil_iff.mp rest.symm).2
  · refine level.imp_right fun evenUsed => ?_
    rw [braceDepth_append, even, evenUsed]

/-- The token in front of the next piece is no word. -/
theorem Stands.last_isWord (stands : Stands all read depth state) (next : state.rest = name :: behind)
    (ident : name.isIdent) {earlier : List Token} {word : Token} (last : read = earlier ++ [word])
    (text : String) : word.isWord text = false := by
  rcases stands.settled with none | ends | brace | ⟨front, other, whole, notIdent⟩
  · simp [none] at last
  · rw [next] at ends
    cases ends
  · rw [next] at brace
    exact absurd (isBrace_of_isIdent ident) (by rw [show isBrace name = true from brace]; decide)
  · obtain ⟨_, same⟩ := append_inj' (last.symm.trans whole) rfl
    obtain rfl := (List.cons.inj same).1
    rw [Token.isWord]
    rw [Token.isIdent] at notIdent
    rw [notIdent]
    rfl

theorem not_namesState (ordered : InOrder 0 stop all) (split : all = front ++ name :: behind)
    (next : behind.head?.any (·.isPunct "\x7b") = false)
    (last : ∀ earlier word, front = earlier ++ [word] → word.isWord "state" = false) : ¬NamesState all name := by
  rintro ⟨other, further, split', place⟩
  obtain rfl : front = other := (ordered.takeWhile_start split).symm.trans (ordered.takeWhile_start split')
  obtain rfl := (List.cons.inj (append_cancel_left (split.symm.trans split'))).2
  rcases place with ⟨_, brace⟩ | ⟨earlier, word, whole, isState⟩
  · rw [next] at brace
    cases brace
  · rw [last earlier word whole] at isState
    cases isState

/-- What was declared in advance for a name that names no state is a function. -/
theorem Sketch.isFunction {env : Env} {decl : Decl} (sketch : Sketch env all name decl) (other : ¬NamesState all name) :
    decl.kind = .func ∧ env.definitions.events.contains name.text = false := by
  obtain ⟨kind, unknown, _⟩ := sketch.kind.resolve_right fun isState => other isState.2
  exact ⟨kind, unknown⟩

theorem head?_of_paren {paren : Token} {rest : List Token} (opens : paren.isPunct "(") :
    (paren :: rest).head?.any (·.isPunct "\x7b") = false := by
  change paren.isPunct "\x7b" = false
  rw [isPunct_eq opens]
  decide

end Names

/-! ## Handlers -/

section Handlers

variable {env : Env} {all read used : List Token} {stop depth : Nat} {before after : State}

/-- Reading stands between two pieces, with all that holds there. -/
structure Between (env : Env) (all read : List Token) (stop depth : Nat) (state : State) : Prop
    extends Stands all read depth state where
  ordered : InOrder 0 stop all
  sound : Sound env all stop none state
  opened : depth = 0 → state.arena.opened = [Arena.globalScope]

theorem Sound.pass (sound : Sound env all stop none before) (pass : Pass used before after) :
    Sound env all stop none after :=
  (Sustains.pass pass none sound).1

theorem Sound.named (sound : Sound env all stop none before) (pass : Pass used before after) {name : Token}
    (found : name ∈ used) :
    Sketched env all after name ∧ after.arena.Holds after.prevEnd stop after.arena.current name.span ∧
      name.span.start < after.prevEnd := by
  have isLeft : name ∈ before.rest := by
    rw [pass.rest]
    exact mem_append_left _ found
  obtain ⟨_, filled, reached⟩ := sound.placed.passes (.pass pass) found
  exact ⟨(sound.awaiting name isLeft).mono (Extends.pass pass).prototypes (.of_eq pass.decls),
    sound.placed.holds_token pass found, Nat.lt_of_lt_of_le filled reached⟩

/-- A handler's name is not one that was declared in advance as a state. -/
theorem Between.heads {name paren : Token} {rest : List Token} (between : Between env all read stop (depth + 1) before)
    (front : before.rest = name :: paren :: rest) (ident : name.isIdent) (opens : paren.isPunct "(") :
    Heads env all stop .event name (before.advance 1) := by
  obtain ⟨sketched, holds, passed⟩ := between.sound.named (Pass.one front) (mem_singleton_self name)
  have split : all = read ++ name :: paren :: rest := by rw [between.whole, front]
  refine ⟨.inr rfl, sketched, holds, passed, fun _ ref found id means => ?_, fun old sketch => ?_⟩
  · obtain ⟨_, _, _, sighting⟩ := between.sound.watched.sighted ref found id means
    exact Nat.le_trans sighting.passed (between.sound.placed.passes (.pass (.one front)) mem_cons_self).1
  have other := not_namesState between.ordered split (head?_of_paren opens) fun earlier word last =>
    between.last_isWord front ident last "state"
  refine ⟨(sketch.isFunction other).1, .inr ⟨rfl, ?_⟩⟩
  rw [between.ordered.takeWhile_start split, @Stands.level_of_rest _ _ _ [] _ _ _ between.toStands front]
  exact Nat.succ_pos depth

theorem Between.next (between : Between env all read stop depth before) (extends_ : Extends used before after)
    (settled : Settled used after.rest) (level : after.rest = [] ∨ braceDepth depth used = depth)
    (sound : Sound env all stop none after) : Between env all (read ++ used) stop depth after :=
  ⟨between.toStands.next extends_.rest settled level, between.ordered, sound, fun outside =>
    (extends_.opened between.sound.placed.laminar.isOpen).trans (between.opened outside)⟩

theorem Handler.between (handler : Handler env used before after)
    (between : Between env all read stop (depth + 1) before) :
    Between env all (read ++ used) stop (depth + 1) after ∧ KeepsBefore before.prevEnd before after := by
  obtain ⟨nested, settled⟩ := handler.ends
  have next := between.next handler.extends settled (nested.balanced.imp_right fun even => even _)
  cases handler with
  | skip pass => exact ⟨next (between.sound.pass pass), .of_keeps (.of_eq pass.decls)⟩
  | handler front ident opens run =>
    obtain ⟨sound, keeps⟩ := run.sound (between.sound.pass (.one front)) (between.heads front ident opens)
    have starts := (between.sound.placed.passes (.pass (.one front)) mem_cons_self).1
    exact ⟨next sound, keeps.mono starts⟩

theorem Runs.nested (runs : Runs (Handler env) used before after) : Nested used after.rest := by
  induction runs with
  | done => exact ⟨fun _ => rfl, .inr fun _ => rfl⟩
  | more first rest ih => exact first.ends.1.append ih (Runs.extends Handler.extends rest).rest

/-- Pieces that are read keep what was declared in front of them. -/
theorem Runs.between {step : List Token → State → State → Prop}
    (extend : ∀ {used before after}, step used before after → Extends used before after)
    (steps : ∀ {read used before after}, step used before after → Between env all read stop depth before →
      Between env all (read ++ used) stop depth after ∧ KeepsBefore before.prevEnd before after)
    (runs : Runs step used before after) (between : Between env all read stop depth before) :
    Between env all (read ++ used) stop depth after ∧ KeepsBefore before.prevEnd before after := by
  induction runs generalizing read with
  | done =>
    rw [append_nil]
    exact ⟨between, .of_keeps (.of_eq rfl)⟩
  | more first _ ih =>
    obtain ⟨middle, keeps⟩ := steps first between
    obtain ⟨last, keepsLater⟩ := ih middle
    rw [← append_assoc]
    exact ⟨last, keeps.trans (keepsLater.mono (between.sound.placed.le_prevEnd (extend first)))⟩

end Handlers

/-! ## Items -/

section Items

variable {env : Env} {all read used : List Token} {stop : Nat} {before after : State}

variable {lead : List Token} {head name : Token}

theorem StateLead.plain (led : StateLead lead head name) : ∀ token ∈ lead ++ [name], isBrace token = false := by
  cases led with
  | bare word => simpa using isBrace_of_isWord word
  | named word ident => simpa using ⟨isBrace_of_isWord word, isBrace_of_isIdent ident⟩

/-- A state starts no later than its name. -/
theorem StateLead.starts {rest tokens : List Token} {first : Nat} (led : StateLead lead head name)
    (ordered : InOrder first stop tokens) (whole : tokens = lead ++ [name] ++ rest) :
    head.span.start ≤ name.span.start := by
  cases led with
  | bare => exact Nat.le_refl _
  | named =>
    subst whole
    have filled := ordered.filled head mem_cons_self
    have behind := (ordered.tail.inside name mem_cons_self).1
    exact Nat.le_trans (Nat.le_of_lt filled) behind

/-- An item ends where the next one can begin, outside all braces. -/
theorem Item.ends (item : Item env used before after) :
    (after.rest = [] ∨ braceDepth 0 used = 0) ∧ Settled used after.rest := by
  cases item with
  | skip _ _ level settled => exact ⟨level, settled⟩
  | «variable» front typed ident _ run =>
    have body : Body env _ before after := run.body front (isBrace_of_typeOf? typed) ident
    refine ⟨body.nested.balanced.imp_right fun even => even 0, ?_⟩
    cases run with
    | mk _ _ _ settled => exact settled.prepend (_ :: _ :: _)
  | callable led _ _ run =>
    obtain ⟨nested, settled⟩ := run.ends
    exact ⟨((nested_of_plain led.plain _).append nested run.extends.rest).balanced.imp_right
      fun even => even 0, settled.prepend _⟩
  | @state _ inside _ _ _ _ _ _ _ opening _ led _ _ _ opens handlers ends =>
    have block := nested_block opens handlers.nested ends
    refine ⟨?_, (settled_block ends (opening :: inside)).prepend _⟩
    refine block.balanced.imp_right fun even => ?_
    rw [braceDepth_append, braceDepth_of_plain led.plain, even]
  | stateless led _ _ skipped _ settled =>
    refine ⟨.inr ?_, settled.prepend _⟩
    rw [braceDepth_append, braceDepth_of_plain led.plain, braceDepth_of_plain skipped.plain]

theorem CallableRun.exists_paren {kind : DeclKind} {returns : SemType} {start : Nat}
    (run : CallableRun env kind returns name start used before after) :
    ∃ paren rest, before.rest = paren :: rest ∧ paren.isPunct "(" := by
  cases run with
  | body header | missing header =>
    cases header with
    | mk slot front opens => exact ⟨_, _, slot.rest.symm.trans front, opens⟩

/-- A word that names a type is no other word. -/
theorem isWord_of_typeOf? {token : Token} {type : SemType} (typed : TopLevel.typeOf? token = some type) {word : String}
    (other : SemType.ofKeyword? word = none) : token.isWord word = false := by
  obtain ⟨ident, keyword⟩ := typeOf?_eq_some typed
  rw [Token.isIdent] at ident
  rw [Token.isWord, ident, Bool.true_and, beq_eq_false_iff_ne]
  intro same
  rw [same, other] at keyword
  cases keyword

/-- The declaration that a state takes is there, and its whole span can be written again. -/
theorem StateSlot.fills {id : Nat} (slot : StateSlot name before id after) (sound : Sound env all stop none before)
    (sketched : Sketched env all before name)
    (holds : before.arena.Holds before.prevEnd stop before.arena.current name.span) :
    Sound env all stop none after ∧ Grows stop before after ∧ ∃ old, after.decls[id]? = some old ∧
      old.span = name.span ∧ ∀ full, Encloses full name.span → Refits env all old { old with fullSpan := full } := by
  have stateNotLocal : ¬IsLocal .state := by rw [IsLocal]; decide
  cases slot with
  | known found =>
    obtain ⟨old, there, sketch⟩ := sketched id found
    obtain ⟨same, grows⟩ := Sustains.refl before none sound
    refine ⟨same, grows, old, there, sketch.span, fun full encloses => ?_⟩
    refine ⟨rfl, rfl, rfl, ?_, .inl ⟨rfl, rfl⟩, by rw [sketch.fullSpan]; exact encloses⟩
    rcases sketch.kind with ⟨kind, _⟩ | ⟨kind, _⟩
    · rw [kind]
      exact IsCallable.notLocal (.inl rfl)
    · rw [kind]
      exact stateNotLocal
  | fresh =>
    -- The global scope holds every name.
    have global : before.arena.Holds before.prevEnd stop Arena.globalScope name.span := by
      obtain ⟨scope, there, _, _, span⟩ := sound.placed.laminar.global
      obtain ⟨_, _, _, inside, _⟩ := holds
      refine ⟨scope, there, by rw [span]; exact Nat.zero_le _, inside, fun other => absurd rfl other, fun notOpen => ?_⟩
      exact absurd sound.placed.laminar.stack.global_mem notOpen
    obtain ⟨added, grows⟩ := sound.addDecl (headerDecl before.decls.size name.text .state .void [] name.span
      name.span.start name.span.stop Arena.globalScope) rfl global fun isLocal => absurd isLocal stateNotLocal
    refine ⟨added, grows, _, getElem?_addDecl_size .., rfl, fun full encloses => ?_⟩
    refine ⟨rfl, rfl, rfl, stateNotLocal, .inl ⟨rfl, rfl⟩, ?_, ?_⟩
    · exact Nat.le_min.mpr ⟨encloses.1, encloses.1⟩
    · exact Nat.max_le.mpr ⟨encloses.2, encloses.2⟩

/-- A callable outside all states is what was declared in advance for its name. -/
theorem CallableLead.heads {type : Option SemType} {start : Nat} {kind : DeclKind} {ready : State}
    (led : CallableLead type lead name start) (between : Between env all read stop 0 before)
    (passed : Pass (lead ++ [name]) before ready) (outside : OutsideStates env kind name ready)
    (paren : ∃ paren rest, ready.rest = paren :: rest ∧ paren.isPunct "(") :
    Heads env all stop kind name ready := by
  have isThere : name ∈ lead ++ [name] := mem_append_right _ (mem_singleton_self name)
  obtain ⟨sketched, holds, reached⟩ := between.sound.named passed isThere
  obtain ⟨opening, rest, next, opens⟩ := paren
  have whole : before.rest = lead ++ name :: opening :: rest := by
    rw [passed.rest, next, append_assoc]
    rfl
  have split : all = (read ++ lead) ++ name :: opening :: rest := by rw [between.whole, whole, append_assoc]
  have other : ¬NamesState all name := by
    refine not_namesState between.ordered split (head?_of_paren opens) fun earlier word last => ?_
    cases led with
    | bare ident =>
      rw [append_nil] at last
      exact between.last_isWord whole ident last "state"
    | typed typed =>
      obtain ⟨_, same⟩ := append_inj' last rfl
      rw [← (List.cons.inj same).1]
      exact isWord_of_typeOf? typed rfl
  have global : ready.arena.current = Arena.globalScope := by
    rw [passed.arena, Arena.current, between.opened rfl]
    rfl
  refine ⟨outside.imp And.left And.left, sketched, holds, reached, absurd global, fun old sketch => ?_⟩
  obtain ⟨isFunction, notEvent⟩ := sketch.isFunction other
  refine ⟨isFunction, .inl ⟨?_, global⟩⟩
  rcases outside with ⟨kind, _⟩ | ⟨_, isEvent, _⟩
  · exact kind
  · rw [notEvent] at isEvent
    cases isEvent

/-- Behind the name and the brace of a state its handlers are read, one level further in. -/
theorem Stands.opens (stands : Stands all read 0 before) {lead rest : List Token} {head name opening : Token}
    (led : StateLead lead head name) (whole : before.rest = lead ++ [name] ++ opening :: rest)
    (opens : opening.isPunct "\x7b") (behind : after.rest = rest) :
    Stands all (read ++ (lead ++ [name] ++ [opening])) 1 after := by
  refine ⟨?_, .inr ((settled_of_isPunct opens _).prepend _ |>.prepend _), .inr ?_⟩
  · rw [stands.whole, whole, behind]
    simp
  · rw [braceDepth_append, stands.level_of_rest whole, braceDepth_append, braceDepth_of_plain led.plain,
      braceDepth_opening opens]
    rfl

/-- A state is read: its declaration is chosen, its handlers are read in a scope of their own, and the declaration is
given its whole span. -/
theorem Between.readState {inside rest : List Token} {ready chosen middle : State} {opening : Token} {id : Nat}
    (between : Between env all read stop 0 before) (led : StateLead lead head name)
    (passed : Pass (lead ++ [name]) before ready) (slot : StateSlot name ready id chosen)
    (front : chosen.rest = opening :: rest) (opens : opening.isPunct "\x7b")
    (handlers : Runs (Handler env) inside (chosen.enter env .state) middle) :
    let last := (middle.advance 1).close.setDecl id fun decl =>
      { decl with fullSpan := ⟨head.span.start, max (middle.advance 1).prevEnd head.span.stop⟩ }
    Sound env all stop none last ∧ KeepsBefore before.prevEnd before last := by
  have sound := between.sound
  obtain ⟨sketched, holds, _⟩ := sound.named passed (mem_append_right _ (mem_singleton_self name))
  obtain ⟨soundChosen, growsChosen, old, there, span, refits⟩ := slot.fills (sound.pass passed) sketched holds
  obtain ⟨soundEntered, growsEntered⟩ := Sustains.enter .state front none soundChosen
  have entered := ((Extends.pass passed).andThen slot.extends).trans (.pass (.one front))
  obtain ⟨starts, filled, reached⟩ := sound.placed.passes entered (show name ∈ lead ++ [name] ++ [opening] by simp)
  have whole : before.rest = lead ++ [name] ++ opening :: rest := by rw [passed.rest, ← slot.rest, front]
  have inside : Between env all (read ++ (lead ++ [name] ++ [opening])) stop 1 (chosen.enter env .state) :=
    ⟨between.opens led whole opens (congrArg (List.drop 1) front), between.ordered, soundEntered, nofun⟩
  obtain ⟨betweenMiddle, keeps⟩ := handlers.between Handler.extends Handler.between inside
  obtain ⟨soundClosed, growsClosed⟩ :=
    (Sustains.pass (.take middle 1)).trans (.close _) none betweenMiddle.sound
  -- The state's own declaration is as it was.
  have isThere := growsClosed.keeps id old
    (keeps id old (growsEntered.keeps id old there) (.inl (by rw [span]; exact Nat.lt_of_lt_of_le filled reached)))
  have onward := (Runs.extends Handler.extends handlers).trans (.pass (.take middle 1))
  have ends := Nat.le_trans reached (soundEntered.placed.le_prevEnd onward)
  have refitted := refits ⟨head.span.start, max (middle.advance 1).prevEnd head.span.stop⟩
    ⟨led.starts sound.placed.ordered passed.rest, Nat.le_trans ends (Nat.le_max_left ..)⟩
  have keepsFirst : KeepsBefore before.prevEnd before (chosen.enter env .state) :=
    .of_keeps ((Keeps.of_eq passed.decls).trans (growsChosen.keeps.trans growsEntered.keeps))
  have le := sound.placed.le_prevEnd entered
  have keepsAll := (keepsFirst.trans (keeps.mono le)).trans (.of_keeps growsClosed.keeps)
  have held := soundClosed.placed.decls isThere
  refine ⟨soundClosed.setDecl isThere refitted held (fun token isLeft => ?_) nofun,
    keepsAll.setDecl isThere (by rw [span]; exact starts) refitted.notLocal⟩
  rw [span]
  exact Nat.lt_of_lt_of_le (Nat.lt_of_lt_of_le filled ends) (soundClosed.placed.ordered.inside token isLeft).1

/-- Reading an item keeps what holds, and the global scope stays the only open one. -/
theorem Item.between (item : Item env used before after) (between : Between env all read stop 0 before) :
    Between env all (read ++ used) stop 0 after ∧ KeepsBefore before.prevEnd before after := by
  have sound := between.sound
  have next := between.next item.extends item.ends.2 item.ends.1
  cases item with
  | skip pass => exact ⟨next (sound.pass pass), .of_keeps (.of_eq pass.decls)⟩
  | «variable» front typed ident behind run =>
    have body : Body env _ before after := run.body front (isBrace_of_typeOf? typed) ident
    obtain ⟨soundAfter, grows⟩ := body.sustains none sound
    exact ⟨next soundAfter, .of_keeps grows.keeps⟩
  | callable led passed outside run =>
    have heads := led.heads between passed outside run.exists_paren
    obtain ⟨soundAfter, keeps⟩ := run.sound (sound.pass passed) heads
    have starts := (sound.placed.passes (.pass passed) (mem_append_right _ (mem_singleton_self _))).1
    exact ⟨next soundAfter, (KeepsBefore.of_keeps (.of_eq passed.decls)).trans (keeps.mono starts)⟩
  | state led passed slot front opens handlers =>
    obtain ⟨soundAfter, keeps⟩ := between.readState led passed slot front opens handlers
    exact ⟨next soundAfter, keeps⟩
  | stateless led passed slot skipped =>
    obtain ⟨sketched, holds, _⟩ := sound.named passed (mem_append_right _ (mem_singleton_self _))
    obtain ⟨soundChosen, growsChosen, _⟩ := slot.fills (sound.pass passed) sketched holds
    refine ⟨next (soundChosen.pass skipped.toPass), .of_keeps ?_⟩
    exact (Keeps.of_eq passed.decls).trans (growsChosen.keeps.trans (.of_eq skipped.decls))

end Items

end ScriptLint.Analysis
