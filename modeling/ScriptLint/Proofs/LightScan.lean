import ScriptLint.Proofs.Predeclared

/-!
# The light scan sees what is read

The light scan skips bodies by their braces and statements by their semicolons. Where a document is well-formed it comes
out of a body where reading comes out of it, and finds the items that are read, with the same types and parameters.
-/

namespace ScriptLint

open Analysis TopLevel List

namespace TopLevel

variable {token opening closing name paren sign : Token} {used rest behind after : List Token} {type : Option SemType}
  {params : List Param}

/-! ## Items -/

theorem scan_opening (opens : opening.isPunct "\x7b") : scan (opening :: rest) = scan (skipBody 0 rest) := by
  rw [scan.eq_def]
  exact if_pos opens

/-- A word that begins no state begins the item of its name. -/
theorem scan_named {item : Item} (ident : token.isIdent)
    (other : token.isWord "default" = false ∧ token.isWord "state" = false)
    (named : nameAt? (typeOf? token) token rest = some (name, behind))
    (found : readItem (typeOf? token) name behind = some (some item, after)) :
    scan (token :: rest) = item :: scan after := by
  have notOpen := (plain_of_isIdent ident).2 "\x7b"
  rw [scan.eq_def]
  simp only [notOpen, other.1, other.2, Bool.false_and, Bool.false_eq_true, ↓reduceIte]
  split
  · rename_i missing
    rw [named] at missing
    cases missing
  · rename_i there same
    obtain ⟨rfl, rfl⟩ := Prod.mk.inj (Option.mem_unique same named)
    split
    · rename_i isFound
      obtain ⟨isItem, rfl⟩ := Prod.mk.inj (Option.mem_unique isFound found)
      rw [Option.some.inj isItem]
    · next isFound => cases isFound.symm.trans found
    · next isFound => cases isFound.symm.trans found

theorem scan_variable {typeToken : Token} {type : SemType} (typed : typeOf? typeToken = some type)
    (ident : name.isIdent) (declares : (sign.isPunct ";" || sign.isOp "=")) :
    scan (typeToken :: name :: sign :: rest) =
      ⟨.global, name.text, name.span, some type, []⟩ :: scan (skipStatement (sign :: rest)) := by
  have notParen : sign.isPunct "(" = false := by
    rcases Bool.or_eq_true_iff.mp declares with semicolon | equals
    · rw [isPunct_eq semicolon]
      decide
    · rw [Token.isOp] at equals
      refine (isBrace_of_kind ?_).2 "("
      rw [eq_of_beq (Bool.and_eq_true_iff.mp equals).1]
      decide
  have named : nameAt? (typeOf? typeToken) typeToken (name :: sign :: rest) = some (name, sign :: rest) := by
    rw [typed]
    exact if_pos ident
  refine scan_named (typeOf?_eq_some typed).1 ⟨isWord_of_typeOf? typed rfl, isWord_of_typeOf? typed rfl⟩ named ?_
  rw [typed, readItem, notParen]
  exact if_pos declares

end TopLevel

namespace Analysis

variable {env : Env} {lead used : List Token} {rest behind : List Token} {name paren opening head : Token}
  {before middle after : State}

theorem CallableLead.scan {type : Option SemType} {start : Nat} {params : List Param}
    (led : CallableLead type lead name start) (opens : paren.isPunct "(")
    (scanned : scanParams rest = (params, opening :: behind)) (body : opening.isPunct "\x7b") :
    scan (lead ++ name :: paren :: rest) =
      ⟨.function, name.text, name.span, type, params⟩ :: scan (skipBody 0 behind) := by
  have isItem : TopLevel.readItem type name (paren :: rest) =
      some (some ⟨.function, name.text, name.span, type, params⟩, opening :: behind) := by
    rw [TopLevel.readItem, if_pos opens, scanned]
    exact if_pos body
  rw [← scan_opening body]
  cases led with
  | bare ident other untyped =>
    have noType : typeOf? name = none := by rw [typeOf?, if_pos ident, untyped]
    have named : nameAt? (typeOf? name) name (paren :: rest) = some (name, paren :: rest) := by
      rw [noType]
      exact if_pos ident
    exact scan_named ident other named (by rw [noType, isItem])
  | @typed typeToken _ _ typed ident =>
    have named : nameAt? (typeOf? typeToken) typeToken (name :: paren :: rest) =
        some (name, paren :: rest) := by
      rw [typed]
      exact if_pos ident
    exact scan_named (typeOf?_eq_some typed).1 ⟨isWord_of_typeOf? typed rfl, isWord_of_typeOf? typed rfl⟩ named
      (by rw [typed, isItem])

theorem StateLead.scan (led : StateLead lead head name) (opens : opening.isPunct "\x7b") :
    scan (lead ++ name :: opening :: rest) =
      ⟨.state, name.text, name.span, none, []⟩ :: scan (skipBody 0 rest) := by
  rw [← scan_opening opens]
  cases led with
  | bare word =>
    have notOpen := (plain_of_isIdent (Bool.and_eq_true_iff.mp word).1).2 "\x7b"
    rw [nil_append, scan.eq_def]
    dsimp only
    rw [notOpen, word]
    exact if_pos opens
  | named word ident =>
    have notOpen := (plain_of_isIdent (Bool.and_eq_true_iff.mp word).1).2 "\x7b"
    have notDefault : (name :: opening :: rest).head?.any (·.isPunct "\x7b") = false :=
      (plain_of_isIdent ident).2 "\x7b"
    rw [singleton_append, scan.eq_def]
    dsimp only
    rw [notOpen, notDefault, word, Bool.and_false]
    exact if_pos ident

theorem Extends.clean (extends_ : Extends used before after) (clean : after.Clean) : before.Clean :=
  fun finding found => clean finding (extends_.findings.subset found)

section Callables

variable {kind : DeclKind} {returns : SemType} {start id scope : Nat} {params : List Param}

/-- A callable is written again with the parameters that the light scan finds. -/
theorem CallableRun.scanned (run : CallableRun env kind returns name start used before after) (clean : after.Clean) :
    ∃ paren rest params opening behind, before.rest = paren :: rest ∧ paren.isPunct "(" ∧
      scanParams rest = (params, opening :: behind) ∧ opening.isPunct "\x7b" ∧
      skipBody 0 behind = after.rest ∧
      ∃ (id : Nat) (chosen last : State) (stop : Nat), Slot kind returns name start before id chosen ∧
        after = last.setDecl id fun _ =>
          headerDecl id name.text kind returns params name.span start stop before.arena.current := by
  cases run with
  | @body _ inside rest _ headed middle _ last id _ params opening _ header front opens _ inner ends jumps reported =>
      have cleanHeaded : headed.Clean := by
        have cleanLast : last.Clean := clean
        exact (Extends.callableBody front inner jumps reported).clean cleanLast
      have inside : rest = inside ++ middle.rest := by
        have passed : headed.rest.drop 1 = inside ++ middle.rest := inner.extends.rest
        rwa [front] at passed
      cases header with
      | @mk _ behind _ chosen _ paren _ _ slot frontHeader opensHeader _ scanned =>
        refine ⟨paren, behind, params, opening, rest, ?_, opensHeader, ?_, opens, ?_, id, chosen, _, _, slot, rfl⟩
        · rw [← slot.rest, frontHeader]
        · rw [scanned cleanHeaded, front]
        · -- The body is even in braces, so the scan leaves it at the brace that ended it.
          rw [inside, inner.nested.level, ends.skipBody.1]
          exact (reported.rest.symm.trans jumps.rest).symm
  | missing _ _ _ broken => exact absurd clean broken

end Callables

/-! ## Items -/

/-- What is read is an item of the light scan, whose name stands behind no braces. -/
structure Scans (item : TopLevel.Item) (before after : State) : Prop where
  scan : scan before.rest = item :: scan after.rest
  stands : ∃ lead name rest, before.rest = lead ++ name :: rest ∧ (∀ token ∈ lead, isBrace token = false) ∧
    item.span = name.span

section Items

variable {all read inside : List Token} {stop start id : Nat} {ready chosen : State}

theorem VariableRun.scans {typeToken sign : Token} {type : SemType}
    (run : VariableRun type name used (before.advance 2) after)
    (front : before.rest = typeToken :: name :: sign :: rest) (typed : typeOf? typeToken = some type)
    (ident : name.isIdent) (declares : (sign.isPunct ";" || sign.isOp "=")) (clean : after.Clean) :
    Scans ⟨.global, name.text, name.span, some type, []⟩ before after := by
  refine ⟨?_, [typeToken], name, sign :: rest, front, ?_, rfl⟩
  · cases run with
    | mk _ _ _ _ statement =>
      have skipped : skipStatement (before.rest.drop 2) = after.rest := statement clean
      rw [front] at skipped
      rw [front, scan_variable typed ident declares, ← skipped]
      rfl
  · exact forall_mem_singleton.mpr (isBrace_of_typeOf? typed)

/-- A callable is written again with the parameters that the light scan finds. -/
theorem CallableRun.scans {type : Option SemType} {kind : DeclKind}
    (run : CallableRun env kind (type.getD .void) name start used ready after) (led : CallableLead type lead name start)
    (passed : Pass (lead ++ [name]) before ready) (clean : after.Clean) :
    ∃ params, Scans ⟨.function, name.text, name.span, type, params⟩ before after ∧
      ∃ (id : Nat) (chosen last : State) (stop : Nat), Slot kind (type.getD .void) name start ready id chosen ∧
        after = last.setDecl id fun _ =>
          headerDecl id name.text kind (type.getD .void) params name.span start stop ready.arena.current := by
  obtain ⟨paren, rest, params, opening, behind, front, opens, scanned, body, skipped, written⟩ := run.scanned clean
  have whole : before.rest = lead ++ name :: paren :: rest := by
    rw [passed.rest, front, append_assoc]
    rfl
  have plain : ∀ token ∈ lead, isBrace token = false :=
    fun token found => led.plain token (mem_append_left _ found)
  refine ⟨params, ⟨?_, lead, name, paren :: rest, whole, plain, rfl⟩, written⟩
  rw [whole, led.scan opens scanned body, skipped]

theorem scans_state (led : StateLead lead head name) (passed : Pass (lead ++ [name]) before ready)
    (slot : StateSlot name ready id chosen) (front : chosen.rest = opening :: rest)
    (opens : opening.isPunct "\x7b") (handlers : Runs (Handler env) inside (chosen.enter env .state) middle)
    (ends : middle.AtEnd) (done : after.rest = middle.rest.drop 1) :
    Scans ⟨.state, name.text, name.span, none, []⟩ before after := by
  have whole : before.rest = lead ++ name :: opening :: rest := by
    rw [passed.rest, ← slot.rest, front, append_assoc]
    rfl
  have plain : ∀ token ∈ lead, isBrace token = false :=
    fun token found => led.plain token (mem_append_left _ found)
  have inBody : chosen.rest.drop 1 = inside ++ middle.rest := (Runs.extends Handler.extends handlers).rest
  rw [front] at inBody
  change rest = inside ++ middle.rest at inBody
  refine ⟨?_, lead, name, opening :: rest, whole, plain, rfl⟩
  rw [whole, led.scan opens, inBody, handlers.nested.level, ends.skipBody.1, done]

theorem Item.scans (item : Item env used before after) (clean : after.Clean) : ∃ found, Scans found before after := by
  cases item with
  | skip _ broken => exact absurd clean broken
  | «variable» front typed ident declares run => exact ⟨_, run.scans front typed ident declares clean⟩
  | callable led passed _ run =>
    obtain ⟨params, scans, _⟩ := run.scans led passed clean
    exact ⟨_, scans⟩
  | state led passed slot front opens handlers ends =>
    exact ⟨_, scans_state led passed slot front opens handlers ends rfl⟩
  | stateless _ _ _ _ broken => exact absurd clean broken

/-- In a well-formed document the light scan finds names outside all braces only. -/
theorem Runs.scanned_outside (runs : Runs (Item env) used before after) (done : after.rest = []) (clean : after.Clean)
    (between : Between env all read stop 0 before) :
    ∀ item ∈ scan before.rest,
      braceDepth 0 (all.takeWhile fun token => token.span.start < item.span.start) = 0 := by
  induction runs generalizing read with
  | done =>
    rw [done, scan.eq_def]
    exact nofun
  | more first others ih =>
    have cleanMiddle := (Runs.extends Item.extends others).clean clean
    obtain ⟨item, scan, lead, name, rest, whole, plain, span⟩ := first.scans cleanMiddle
    rw [scan]
    -- The scan finds the item that was read and goes on where the reading does.
    refine forall_mem_cons.mpr ⟨?_, ih done clean (first.between between).1⟩
    have split : all = (read ++ lead) ++ name :: rest := by rw [between.whole, whole, append_assoc]
    rw [span, between.ordered.takeWhile_start split, braceDepth_append, between.level_of_rest whole,
      braceDepth_of_plain plain]

end Items

/-- No handler of a well-formed document is taken for a function. -/
theorem readDocument_not_astray {stop : Nat} {all : List Token} (ordered : InOrder 0 stop all) :
    Yields (readDocument env) { rest := all, arena := .new env.length } fun _ after =>
      after.Clean → ∀ decl, ¬Astray env.definitions all decl := by
  refine (readDocument_ready ordered).mono fun _ after ⟨_, _, _, ready, runs, done⟩ clean decl astray => ?_
  have outside := runs.scanned_outside done clean ready.between
  rw [ready.rest] at outside
  obtain ⟨item, found, _, span⟩ := astray.scanned
  have level := outside item found
  rw [span] at level
  exact absurd level (Nat.ne_of_gt astray.inside)

end Analysis

end ScriptLint
