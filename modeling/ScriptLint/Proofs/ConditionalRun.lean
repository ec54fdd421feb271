import ScriptLint.Proofs.ConditionalTree

/-!
# Runs follow the tree of a document

A run keeps its groups as a flat list of frames. Over the lines of a tree it does what reading the tree does: it ends
with the same definitions, includes and diagnostics, passes over the lines that the reading leaves out, and finds
its frames as they were. The induction is on the tree. Inactive code and the rest of a group that had its branch are
treated alike, because no condition is asked in either.
-/

namespace ScriptLint.Preprocess

open List

namespace Run

/-- A run without regard to groups and disabled ranges. -/
def core (run : Run) : Run := run.moveTo {}

theorem core_addRemark (run : Run) (line : Line) : (run.addRemark line).core = run.core.addRemark line :=
  (addRemark_moveTo run {} line).symm

theorem Asks.core {ask : Run → Bool × Run} (asks : Asks ask) (run : Run) :
    ((ask run).1, (ask run).2.core) = ask run.core :=
  (asks.moveTo run {}).symm

theorem asks_ask (opening : Directive) : Asks (ask · opening) := by
  unfold ask
  cases opening.keyword with
  | ifDefined => exact asks_definedness _ _ opening
  | ifNotDefined => exact asks_definedness _ _ opening
  | _ => exact asks_condition _ opening

theorem core_closeDisabled (run : Run) (stop : Nat) : (run.closeDisabled stop).core = run.core := by
  unfold closeDisabled
  cases run.disabledFrom <;> rfl

/-- What a directive does goes by its role. One that opens a group asks its condition in active code. -/
theorem handle_eq (run : Run) (env : Env) (directive : Directive) :
    run.handle env directive =
      match directive.keyword.role with
      | .opens => run.openGroup directive (·.ask directive)
      | .elseIf => run.elseIf directive
      | .otherwise => run.otherwise directive
      | .closes => run.endIf directive
      | .plain => if run.active then run.perform env directive else run := by
  unfold handle ask
  cases directive.keyword <;> rfl

end Run

theorem Line.directive_of_role {line : Line} {role : Role} (found : line.role = role) (special : role ≠ .plain) :
    line.isDirective ∧ line.directive.keyword.role = role := by
  cases isDirective : line.isDirective with
  | false =>
    rw [Line.role, isDirective] at found
    exact absurd found.symm special
  | true =>
    rw [Line.role, isDirective] at found
    exact ⟨rfl, found⟩

/-- Read a block in active code, and leave it out elsewhere. -/
def Block.readIf (block : Block) (env : Env) (active : Bool) (run : Run) : Reading :=
  if active then block.read env run else ⟨run, texts block.lines⟩

/-- Read the rest of a group that waits for a condition, and leave it out elsewhere. -/
def Further.readIf (further : Further) (env : Env) (awaits : Bool) (run : Run) : Reading :=
  if awaits then further.read env false run else ⟨run, texts further.lines⟩

/-- A run over some lines ends as a reading of them does, with the given frames. -/
structure Advances (env : Env) (run : Run) (lines : List Line) (reading : Reading) (frames : List Frame) : Prop where
  core : (lines.foldl (Run.step env) run).core = reading.run
  passedOver : Run.passedOver env run lines = reading.excluded
  frames : (lines.foldl (Run.step env) run).frames = frames

theorem Run.passedOver_append (env : Env) (run : Run) (first second : List Line) :
    passedOver env run (first ++ second) =
      passedOver env run first ++ passedOver env (first.foldl (step env) run) second := by
  induction first generalizing run with
  | nil => rfl
  | cons _ _ ih =>
    rw [cons_append, passedOver, passedOver, ih]
    split <;> rfl

namespace Advances

variable {env : Env} {run : Run} {line : Line} {frame : Frame} {outer : List Frame}

theorem append {first second : List Line} {before after : Reading} {frames last : List Frame}
    (start : Advances env run first before frames)
    (next : Advances env (first.foldl (Run.step env) run) second after last) :
    Advances env run (first ++ second) ⟨after.run, before.excluded ++ after.excluded⟩ last := by
  constructor
  · rw [foldl_append]
    exact next.core
  · rw [Run.passedOver_append, start.passedOver, next.passedOver]
  · rw [foldl_append]
    exact next.frames

theorem directive (isDirective : line.isDirective) :
    Advances env run [line] ⟨(run.handled env line).core, []⟩ (run.handled env line).frames := by
  have passed : run.passesOver line = false := by simp [Run.passesOver, isDirective]
  constructor
  · rw [foldl_cons, foldl_nil]
    rcases Run.step_of_directive isDirective with ⟨_, after⟩ | ⟨_, after⟩
    · rw [after]
    · rw [after]
      rfl
  · simp [Run.passedOver, passed]
  · rw [foldl_cons, foldl_nil]
    rcases Run.step_of_directive isDirective with ⟨_, after⟩ | ⟨_, after⟩ <;> rw [after]

/-- A directive that does something to a run which has no disabled range open. -/
theorem ofHandle {reading : Run} {frames : List Frame} (isDirective : line.isDirective)
    (handled : ∀ closed : Run, closed.core = run.core → closed.frames = run.frames →
      (closed.handle env line.directive).core = reading ∧
        (closed.handle env line.directive).frames = frames) :
    Advances env run [line] ⟨reading, []⟩ frames := by
  obtain ⟨core, left⟩ := handled (run.closeDisabled line.start) (Run.core_closeDisabled run line.start)
    (Run.frames_closeDisabled run line.start)
  have advances : Advances env run [line] _ _ := directive isDirective
  exact core ▸ left ▸ advances

/-- A directive about groups that asks nothing. -/
theorem ofFrames {role : Role} {frames : List Frame} (found : line.role = role) (special : role ≠ .plain)
    (handled : ∀ closed : Run, line.directive.keyword.role = role → closed.frames = run.frames →
      closed.handle env line.directive = { closed with frames }) :
    Advances env run [line] ⟨run.core, []⟩ frames := by
  obtain ⟨isDirective, keyword⟩ := Line.directive_of_role found special
  apply ofHandle isDirective
  intro closed core same
  rw [handled closed keyword same, ← core]
  exact ⟨rfl, rfl⟩

theorem opens_active (role : line.role = .opens) (active : run.active) :
    Advances env run [line] ⟨(run.core.ask line.directive).2, []⟩
      (.opened true (run.core.ask line.directive).1 line.directive.span :: run.frames) := by
  obtain ⟨isDirective, opens⟩ := Line.directive_of_role role (by decide)
  apply ofHandle isDirective
  intro closed core frames
  have closedActive : closed.active := by rw [Run.active, frames]; exact active
  have asked := (Run.asks_ask line.directive).core closed
  rw [core] at asked
  simp only [Run.handle_eq, opens]
  rw [Run.openGroup_of_active _ _ _ closedActive, ← asked, ← frames]
  have kept : (closed.ask line.directive).2.frames = closed.frames :=
    congrArg Place.frames ((Run.asks_ask line.directive).place closed)
  exact ⟨rfl, by rw [kept]⟩

theorem opens_inactive (role : line.role = .opens) (inactive : run.active = false) :
    Advances env run [line] ⟨run.core, []⟩ (.opened false false line.directive.span :: run.frames) := by
  refine ofFrames role (by decide) fun closed keyword same => ?_
  have closedInactive : closed.active = false := by rw [Run.active, same]; exact inactive
  simp only [Run.handle_eq, keyword]
  rw [Run.openGroup_of_inactive _ _ _ closedInactive, same]

theorem elseIf_awaits (role : line.role = .elseIf) (frames : run.frames = frame :: outer)
    (awaits : frame.awaits) :
    Advances env run [line] ⟨(run.core.condition "#elif" line.directive).2, []⟩
      (frame.branch (run.core.condition "#elif" line.directive).1 :: outer) := by
  obtain ⟨isDirective, elseIf⟩ := Line.directive_of_role role (by decide)
  apply ofHandle isDirective
  intro closed core same
  have asked := (Run.asks_condition "#elif" line.directive).core closed
  rw [core] at asked
  simp only [Run.handle_eq, elseIf]
  rw [Run.elseIf_of_awaits (same.trans frames) awaits, ← asked]
  exact ⟨rfl, rfl⟩

theorem elseIf_decided (role : line.role = .elseIf) (frames : run.frames = frame :: outer)
    (last : frame.sawElse = false) (awaits : frame.awaits = false) :
    Advances env run [line] ⟨run.core, []⟩ (frame.branch false :: outer) := by
  refine ofFrames role (by decide) fun closed keyword same => ?_
  simp only [Run.handle_eq, keyword, Run.elseIf_of_decided (same.trans frames) last awaits]

theorem otherwise (role : line.role = .otherwise) (frames : run.frames = frame :: outer)
    (last : frame.sawElse = false) :
    Advances env run [line] ⟨run.core, []⟩ (frame.elseBranch :: outer) := by
  refine ofFrames role (by decide) fun closed keyword same => ?_
  simp only [Run.handle_eq, keyword, Run.otherwise_of_first (same.trans frames) last]

theorem closes (role : line.role = .closes) (frames : run.frames = frame :: outer) :
    Advances env run [line] ⟨run.core, []⟩ outer := by
  refine ofFrames role (by decide) fun closed keyword same => ?_
  simp only [Run.handle_eq, keyword, Run.endIf_of_open (same.trans frames)]

/-- A line that is not about groups is taken in where the code is active, and left out elsewhere. -/
theorem plain (role : line.role = .plain) :
    Advances env run [line] ((Block.line line .done).readIf env run.active run.core) run.frames := by
  cases isDirective : line.isDirective with
  | true =>
    have plain : line.directive.keyword.role = .plain := by simpa [Line.role, isDirective] using role
    have read : (Block.line line .done).readIf env run.active run.core =
        ⟨if run.active then run.core.perform env line.directive else run.core, []⟩ := by
      cases run.active <;> simp [Block.readIf, Block.read, Block.lines, texts, Run.takeIn, isDirective]
    rw [read]
    apply ofHandle isDirective
    intro closed core frames
    have same : closed.active = run.active := congrArg Preprocess.active frames
    have kept : (closed.perform env line.directive).frames = closed.frames :=
      congrArg Place.frames (Run.place_perform closed env line.directive)
    simp only [Run.handle_eq, plain, same]
    cases run.active with
    | true => exact ⟨(Run.perform_moveTo closed env {} _).symm.trans
      (congrArg (Run.perform · env _) core), kept.trans frames⟩
    | false => exact ⟨core, frames⟩
  | false =>
    constructor
    · rw [foldl_cons, foldl_nil, Run.step_of_text isDirective]
      cases run.active <;> simp [Block.readIf, Block.read, Run.core_addRemark, Run.takeIn, isDirective]
    · cases active : run.active <;>
        simp [Run.passedOver, Run.passesOver, Block.readIf, Block.read, Block.lines, texts, isDirective, active]
    · rw [foldl_cons]
      exact congrArg Place.frames (Run.place_step_of_text isDirective)

end Advances

/-- A run over some lines ends as a reading of them does. It leaves the groups open that begin at the given places,
the outermost first, and finds the frames around them as they were. -/
def Follows (env : Env) (run : Run) (lines : List Line) (reading : Reading) (opened : List Span)
    (outer : List Frame) : Prop :=
  ∃ left,
    left.map Frame.openedAt = opened.reverse ∧ Advances env run lines reading (left ++ outer)

variable {closing : Option Line}

theorem EndFits.isSome (fits : EndFits false closing) : closing.isSome := by
  cases closing with
  | none => exact absurd fits Bool.false_ne_true
  | some => rfl

mutual

theorem Block.unclosed_of_fits : (block : Block) → block.Fits false → block.unclosed = []
  | .done, _ => rfl
  | .line _ rest, ⟨_, fits⟩ => rest.unclosed_of_fits fits
  | .group _ body further rest, ⟨_, bodyFits, furtherFits, restFits⟩ => by
      obtain ⟨closed, none⟩ := further.unclosed_of_fits furtherFits
      rw [Block.unclosed, closed, body.unclosed_of_fits bodyFits, none, rest.unclosed_of_fits restFits]
      rfl

theorem Further.unclosed_of_fits :
    (further : Further) → further.Fits false → further.isClosed ∧ further.unclosed = []
  | .ending _, fits => ⟨fits.isSome, rfl⟩
  | .otherwise _ body _, ⟨_, fits, ends⟩ => ⟨ends.isSome, body.unclosed_of_fits fits⟩
  | .elseIf _ body further, ⟨_, bodyFits, furtherFits⟩ => by
      obtain ⟨closed, none⟩ := further.unclosed_of_fits furtherFits
      rw [Further.isClosed, Further.unclosed, closed, none, body.unclosed_of_fits bodyFits]
      exact ⟨rfl, rfl⟩

end

variable {further : Further}

theorem Further.eq_of_isCut (isCut : further.isCut) : further = .ending none := by
  cases further with
  | ending closing => cases closing <;> simp_all [Further.isCut]
  | otherwise => simp [Further.isCut] at isCut
  | elseIf => simp [Further.isCut] at isCut

theorem Block.eq_of_isDone {block : Block} (isDone : block.isDone) : block = .done := by
  cases block <;> simp_all [Block.isDone]

theorem Frame.openedAt_elseBranch (frame : Frame) : frame.elseBranch.openedAt = frame.openedAt := by
  unfold Frame.elseBranch
  split <;> rfl

/-- The groups that are open behind a branch and the rest of its group. -/
def Further.opened (further : Further) (place : Span) (inside : List Span) : List Span :=
  (if further.isClosed then [] else [place]) ++ (inside ++ further.unclosed)

namespace Follows

variable {env : Env} {run : Run} {first second : List Line} {before after : Reading} {opened : List Span}
  {frame : Frame} {outer : List Frame}

theorem ofAdvances (advances : Advances env run first before outer) : Follows env run first before [] outer :=
  ⟨[], rfl, advances⟩

variable {frames : List Frame} {body : Block} {final : Bool}

theorem afterAdvances (start : Advances env run first before frames)
    (next : ∀ middle, middle.core = before.run → middle.frames = frames →
      Follows env middle second after opened outer) :
    Follows env run (first ++ second) ⟨after.run, before.excluded ++ after.excluded⟩ opened outer := by
  obtain ⟨left, places, advances⟩ := next _ start.core start.frames
  exact ⟨left, places, start.append advances⟩

theorem andThen (start : Follows env run first before [] frames)
    (next : ∀ middle, middle.core = before.run → middle.frames = frames →
      Follows env middle second after opened outer) :
    Follows env run (first ++ second) ⟨after.run, before.excluded ++ after.excluded⟩ opened outer := by
  obtain ⟨left, places, advances⟩ := start
  obtain rfl : left = [] := map_eq_nil_iff.mp places
  exact afterAdvances advances next

/-- A directive about groups and what stands behind it. -/
theorem afterLine {line : Line} {asked : Run} (start : Advances env run [line] ⟨asked, []⟩ frames)
    (next : ∀ middle, middle.core = asked → middle.frames = frames →
      Follows env middle second after opened outer) : Follows env run (line :: second) after opened outer :=
  afterAdvances start next

/-- A branch and the rest of its group. Only where the text cuts the group off may the branch leave groups open. -/
theorem branch (fits : body.Fits (final && further.isCut))
    (cut : further.isCut → after = ⟨before.run, []⟩)
    (start : Follows env run body.lines before body.unclosed (frame :: outer))
    (next : ∀ middle, middle.core = before.run → middle.frames = frame :: outer →
      Follows env middle further.lines after (further.opened frame.openedAt []) outer) :
    Follows env run (body.lines ++ further.lines) ⟨after.run, before.excluded ++ after.excluded⟩
      (further.opened frame.openedAt body.unclosed) outer := by
  cases isCut : further.isCut with
  | true =>
    obtain rfl := Further.eq_of_isCut isCut
    obtain ⟨left, places, advances⟩ := start
    refine ⟨left ++ [frame], ?_, ?_⟩
    · simp [Further.opened, Further.isClosed, Further.unclosed, places]
    · simpa [cut isCut, Further.lines] using advances
  | false =>
    rw [isCut, Bool.and_false] at fits
    rw [body.unclosed_of_fits fits] at start ⊢
    exact start.andThen next

/-- A group from its first line on, and what stands behind it. Behind a group without an end there is nothing. -/
theorem group {opening : Line} {rest : Block} {asked : Run} {own others behind : Reading}
    (place : frame.openedAt = opening.directive.span) (fits : (Block.group opening body further rest).Fits final)
    (cut : further.isCut → others = ⟨own.run, []⟩) (done : rest.isDone → behind = ⟨others.run, []⟩)
    (opens : Advances env run [opening] ⟨asked, []⟩ (frame :: outer))
    (inBody : ∀ middle, middle.core = asked → middle.frames = frame :: outer →
      Follows env middle body.lines own body.unclosed (frame :: outer))
    (inFurther : ∀ middle, middle.core = own.run → middle.frames = frame :: outer →
      Follows env middle further.lines others (further.opened frame.openedAt []) outer)
    (inRest : ∀ middle, middle.core = others.run → middle.frames = outer →
      Follows env middle rest.lines behind rest.unclosed outer) :
    Follows env run (Block.group opening body further rest).lines
      ⟨behind.run, own.excluded ++ (others.excluded ++ behind.excluded)⟩
      (Block.group opening body further rest).unclosed outer := by
  obtain ⟨_, bodyFits, furtherFits, _⟩ := fits
  have unclosed : (Block.group opening body further rest).unclosed =
      further.opened frame.openedAt body.unclosed ++ rest.unclosed := by
    simp [Block.unclosed, Further.opened, place]
  rw [unclosed]
  have inside : ∀ middle, middle.core = asked → middle.frames = frame :: outer →
      Follows env middle (body.lines ++ (further.lines ++ rest.lines))
        ⟨behind.run, own.excluded ++ (others.excluded ++ behind.excluded)⟩
        (further.opened frame.openedAt body.unclosed ++ rest.unclosed) outer := by
    intro middle core frames
    have branches := branch bodyFits cut (inBody middle core frames) inFurther
    rw [← append_assoc, ← append_assoc]
    cases isDone : rest.isDone with
    | true =>
      obtain rfl := Block.eq_of_isDone isDone
      simpa [done isDone, Block.lines, Block.unclosed] using branches
    | false =>
      rw [isDone, Bool.and_false] at bodyFits furtherFits
      obtain ⟨closed, none⟩ := further.unclosed_of_fits furtherFits
      have nothing : further.opened frame.openedAt body.unclosed = [] := by
        simp [Further.opened, closed, none, body.unclosed_of_fits bodyFits]
      rw [nothing] at branches ⊢
      exact branches.andThen inRest
  exact afterLine opens inside

/-- The end of a group, or of the text inside it. -/
theorem ending {core : Run} (fits : EndFits final closing) (sameCore : run.core = core)
    (frames : run.frames = frame :: outer) :
    Follows env run (Further.ending closing).lines ⟨core, []⟩
      ((Further.ending closing).opened frame.openedAt []) outer := by
  subst sameCore
  cases closing with
  | none => exact ⟨[frame], rfl, rfl, rfl, frames⟩
  | some => exact .ofAdvances (Advances.closes fits frames)

/-- The last branch of a group and its end. -/
theorem lastBranch {line : Line} (fits : body.Fits (final && closing.isNone))
    (ends : EndFits final closing)
    (start : Follows env run body.lines before body.unclosed (frame.elseBranch :: outer)) :
    Follows env run (body.lines ++ closing.toList) before
      ((Further.otherwise line body closing).opened frame.openedAt []) outer := by
  have follows := branch fits (fun _ => rfl) start fun _ core frames => ending ends core frames
  have opened : (Further.ending closing).opened frame.elseBranch.openedAt body.unclosed =
      (Further.otherwise line body closing).opened frame.openedAt [] := by
    cases closing <;> simp [Further.opened, Further.isClosed, Further.unclosed, Frame.openedAt_elseBranch]
  rw [opened, append_nil] at follows
  exact follows

end Follows

theorem texts_append (first second : List Line) : texts (first ++ second) = texts first ++ texts second :=
  filter_append first second

theorem texts_cons_of_directive {line : Line} {rest : List Line} (isDirective : line.isDirective) :
    texts (line :: rest) = texts rest := by
  simp [texts, isDirective]

theorem EndFits.texts_toList {final : Bool} (fits : EndFits final closing) : texts closing.toList = [] := by
  cases closing with
  | none => rfl
  | some =>
    obtain ⟨isDirective, _⟩ := Line.directive_of_role fits (by decide)
    exact texts_cons_of_directive isDirective

/-- Once a branch was taken, the rest of its group is left out. -/
theorem Further.read_taken (env : Env) : (further : Further) → {final : Bool} → further.Fits final → (run : Run) →
    further.read env true run = ⟨run, texts further.lines⟩
  | .ending _, _, fits, run => by
      rw [Further.read, Further.lines, EndFits.texts_toList fits]
  | .otherwise line body closing, _, ⟨role, _, ends⟩, run => by
      obtain ⟨isDirective, _⟩ := Line.directive_of_role role (by decide)
      rw [Further.read, Further.lines, texts_cons_of_directive isDirective, texts_append, ends.texts_toList,
        append_nil]
  | .elseIf line body further, _, ⟨role, _, fits⟩, run => by
      obtain ⟨isDirective, _⟩ := Line.directive_of_role role (by decide)
      rw [Further.read, Further.lines, texts_cons_of_directive isDirective, texts_append, further.read_taken env fits]

theorem Further.read_eq {final : Bool} (fits : further.Fits final) (env : Env) (taken : Bool)
    (run : Run) : further.read env taken run = further.readIf env (!taken) run := by
  cases taken with
  | true => exact further.read_taken env fits run
  | false => rfl

theorem Further.readIf_of_isCut (isCut : further.isCut) (env : Env) (awaits : Bool) (run : Run) :
    further.readIf env awaits run = ⟨run, []⟩ := by
  rw [Further.eq_of_isCut isCut]
  cases awaits <;> rfl

theorem Block.readIf_of_isDone {block : Block} (isDone : block.isDone) (env : Env) (active : Bool) (run : Run) :
    block.readIf env active run = ⟨run, []⟩ := by
  rw [Block.eq_of_isDone isDone]
  cases active <;> rfl

theorem Frame.awaits_branch (frame : Frame) (holds : Bool) :
    (frame.branch holds).awaits = (frame.awaits && !holds) := by
  simp [Frame.awaits, Frame.branch, Bool.and_assoc]

theorem Frame.enabled_elseBranch {frame : Frame} (first : frame.sawElse = false) :
    frame.elseBranch.enabled = frame.awaits := by
  simp [Frame.elseBranch, Frame.awaits, first]

mutual

/-- A run follows the reading of a block in active code, and passes over a block elsewhere. -/
theorem Block.follows (env : Env) : (block : Block) → {final : Bool} → block.Fits final → {outer : List Frame} →
    {core : Run} → (run : Run) → run.core = core → run.frames = outer →
    Follows env run block.lines (block.readIf env (active outer) core) block.unclosed outer
  | .done, _, _, _, _, run, core, frames => by
      rw [Block.readIf_of_isDone rfl]
      exact .ofAdvances ⟨core, rfl, frames⟩
  | .line line rest, _, ⟨role, fits⟩, outer, core, run, sameCore, sameFrames => by
      subst sameCore sameFrames
      let first := (Block.line line .done).readIf env run.active run.core
      let after := rest.readIf env run.active first.run
      have read : (Block.line line rest).readIf env run.active run.core =
          ⟨after.run, first.excluded ++ after.excluded⟩ := by
        cases active : run.active <;> simp [first, after, active, Block.readIf, Block.read, Block.lines, ← texts_append]
      have start : Advances env run [line] first run.frames := Advances.plain role
      exact read ▸ Follows.afterAdvances start (rest.follows env fits)
  | .group opening body further rest, final, fits, outer, core, run, sameCore, sameFrames => by
      subst sameCore sameFrames
      obtain ⟨role, bodyFits, furtherFits, restFits⟩ := id fits
      have inside (holds : Bool) (asked : Run) (opens : Advances env run [opening] ⟨asked, []⟩
          (.opened run.active holds opening.directive.span :: run.frames)) :
          let own := body.readIf env (run.active && holds) asked
          let others := further.readIf env (run.active && !holds) own.run
          let behind := rest.readIf env run.active others.run
          Follows env run (Block.group opening body further rest).lines
            ⟨behind.run, own.excluded ++ (others.excluded ++ behind.excluded)⟩
            (Block.group opening body further rest).unclosed run.frames :=
        Follows.group rfl fits (fun isCut => Further.readIf_of_isCut isCut env _ _)
          (fun isDone => Block.readIf_of_isDone isDone env _ _) opens (body.follows env bodyFits)
          (further.follows env furtherFits rfl) (rest.follows env restFits)
      change Follows env run _ ((Block.group opening body further rest).readIf env run.active run.core) _ _
      cases active : run.active with
      | false =>
        obtain ⟨isDirective, _⟩ := Line.directive_of_role role (by decide)
        have read : (Block.group opening body further rest).readIf env false run.core =
            ⟨run.core, texts body.lines ++ (texts further.lines ++ texts rest.lines)⟩ := by
          simp [Block.readIf, Block.lines, texts_cons_of_directive isDirective, texts_append]
        rw [active] at inside
        exact read ▸ inside false run.core (Advances.opens_inactive role active)
      | true =>
        have opens : Advances env run [opening] _ _ := Advances.opens_active role active
        have read : (Block.group opening body further rest).readIf env true run.core =
            (Block.group opening body further rest).read env run.core := rfl
        rw [read, Block.read]
        dsimp only
        rw [Further.read_eq furtherFits]
        rw [active] at inside
        exact inside _ _ opens

/-- A run follows the reading of the rest of a group as long as it had no branch, and passes over it elsewhere. -/
theorem Further.follows (env : Env) : (further : Further) → {final : Bool} → further.Fits final →
    {frame : Frame} → frame.sawElse = false → {outer : List Frame} → {core : Run} → (run : Run) → run.core = core →
    run.frames = frame :: outer →
    Follows env run further.lines (further.readIf env frame.awaits core) (further.opened frame.openedAt []) outer
  | .ending closing, _, fits, frame, _, outer, core, run, sameCore, frames => by
      have nothing : (Further.ending closing).readIf env frame.awaits core = ⟨core, []⟩ := by
        cases frame.awaits <;> simp [Further.readIf, Further.read, Further.lines, EndFits.texts_toList fits]
      rw [nothing]
      exact Follows.ending fits sameCore frames
  | .otherwise line body closing, _, ⟨role, bodyFits, ends⟩, frame, first, outer, core, run, sameCore, frames => by
      subst sameCore
      obtain ⟨isDirective, _⟩ := Line.directive_of_role role (by decide)
      have read : (Further.otherwise line body closing).readIf env frame.awaits run.core =
          body.readIf env (active (frame.elseBranch :: outer)) run.core := by
        rw [show active (frame.elseBranch :: outer) = frame.awaits from Frame.enabled_elseBranch first]
        cases frame.awaits <;> simp [Further.readIf, Block.readIf, Further.read, Further.lines,
          texts_cons_of_directive isDirective, texts_append, ends.texts_toList]
      rw [read]
      apply Follows.afterLine (Advances.otherwise role frames first)
      intro middle core frames
      exact Follows.lastBranch bodyFits ends (body.follows env bodyFits middle core frames)
  | .elseIf line body further, _, ⟨role, bodyFits, furtherFits⟩, frame, first, outer, core, run, sameCore,
      frames => by
      subst sameCore
      have inside (holds : Bool) (asked : Run)
          (asks : Advances env run [line] ⟨asked, []⟩ (frame.branch holds :: outer)) :
          let own := body.readIf env holds asked
          let others := further.readIf env (frame.awaits && !holds) own.run
          Follows env run (Further.elseIf line body further).lines ⟨others.run, own.excluded ++ others.excluded⟩
            ((Further.elseIf line body further).opened frame.openedAt []) outer := by
        apply Follows.afterLine asks
        intro middle core frames
        rw [← Frame.awaits_branch]
        have first : (frame.branch holds).sawElse = false := first
        have follows := Follows.branch bodyFits (fun isCut => Further.readIf_of_isCut isCut env _ _)
          (body.follows env bodyFits middle core frames) (further.follows env furtherFits first)
        exact follows
      cases awaits : frame.awaits with
      | false =>
        obtain ⟨isDirective, _⟩ := Line.directive_of_role role (by decide)
        have read : (Further.elseIf line body further).readIf env false run.core =
            ⟨run.core, texts body.lines ++ texts further.lines⟩ := by
          simp [Further.readIf, Further.lines, texts_cons_of_directive isDirective, texts_append]
        rw [awaits] at inside
        exact read ▸ inside false run.core (Advances.elseIf_decided role frames first awaits)
      | true =>
        have asks : Advances env run [line] _ _ := Advances.elseIf_awaits role frames awaits
        have read : (Further.elseIf line body further).readIf env true run.core =
            (Further.elseIf line body further).read env false run.core := rfl
        rw [read, Further.read]
        dsimp only
        rw [Further.read_eq furtherFits]
        rw [awaits] at inside
        exact inside _ _ asks

end

/-! ## Whole texts -/

namespace Run

theorem core_reportUnclosed (run : Run) (places : List Span) :
    (run.reportUnclosed places).core = run.core.reportUnclosed places := by
  induction places generalizing run with
  | nil => rfl
  | cons place _ ih => exact ih (run.report .unclosedGroup place)

theorem cache_reportUnclosed (run : Run) (places : List Span) : (run.reportUnclosed places).cache = run.cache := by
  induction places generalizing run with
  | nil => rfl
  | cons place _ ih => exact ih (run.report .unclosedGroup place)

theorem reportOpen_eq (run : Run) {places : List Span} (opened : run.frames.map Frame.openedAt = places.reverse) :
    run.reportOpen = run.reportUnclosed places := by
  have forward : places = run.frames.reverse.map Frame.openedAt := by
    rw [map_reverse, opened, reverse_reverse]
  rw [reportOpen, reportUnclosed, forward, foldl_map]

/-- What a run gives at the end of a text is what its core gives, disabled ranges apart. -/
theorem finish_eq (run : Run) (length : Nat) {reading : Reading} {places : List Span}
    (core : run.core = reading.run) (opened : run.frames.map Frame.openedAt = places.reverse) :
    { (run.finish length).1 with disabled := [] } = reading.result places ∧
      (run.finish length).2 = reading.run.cache := by
  let last := run.reportOpen.closeDisabled length
  have lastCore : last.core = reading.run.reportUnclosed places := by
    rw [core_closeDisabled, reportOpen_eq run opened, core_reportUnclosed, core]
  constructor
  · calc
      { (run.finish length).1 with disabled := [] } =
          { last.core.result with suppressions := last.core.result.suppressions.finish } := rfl
      _ = reading.result places := by rw [lastCore]; rfl
  · calc
      (run.finish length).2 = last.core.cache := rfl
      _ = (reading.run.reportUnclosed places).cache := by rw [lastCore]
      _ = reading.run.cache := cache_reportUnclosed reading.run places

/-- Preprocessing reads the tree of a text. Groups may be nested and may lack their end; each tree that the lines of the
text form gives the same definitions, includes, files, suppression rules and diagnostics, in the same order, and the
bytes that are disabled are those of the lines that the reading leaves out. -/
theorem all_reads_tree (env : Env) (predefined : Macro.Table) (text : List Char) (cache : IncludeCache)
    (balanced : Balanced (lines text)) :
    (∃ tree : Block, tree.IsTreeOf (lines text)) ∧
      ∀ tree : Block, tree.IsTreeOf (lines text) →
        let preprocessed := Run.all env predefined text cache
        let reading := tree.readText env predefined cache
        (∀ offset, (∃ range ∈ preprocessed.1.disabled, range.contains offset = true) ↔
          ∃ line ∈ reading.excluded, line.extent.contains offset = true) ∧
        { preprocessed.1 with disabled := [] } = reading.result tree.unclosed ∧
        preprocessed.2 = reading.run.cache := by
  refine ⟨balanced.exists_tree, ?_⟩
  rintro tree ⟨fits, flat⟩
  let initial : Run := { result := { macros := predefined }, cache }
  obtain ⟨left, places, advances⟩ := tree.follows env fits initial rfl rfl
  rw [flat] at advances
  have opened : ((lines text).foldl (step env) initial).frames.map Frame.openedAt = tree.unclosed.reverse := by
    rw [advances.frames, append_nil, places]
  refine ⟨fun offset => ?_, finish_eq _ _ advances.core opened⟩
  have excluded : passedOver env initial (lines text) = (tree.readText env predefined cache).excluded :=
    advances.passedOver
  rw [all_disables, excluded]

/-- A document with a chain of branches, a group inside the branch that is read, and a group that is never closed. -/
def nestedSample : List Char :=
  "#if 0\n#define A 1\nx\n#elif 1\n#ifdef A\ny\n#endif\nz\n#else\nw\n#endif\n#ifndef B\nv\n".toList

theorem all_reads_tree_nestedSample :
    Balanced (lines nestedSample) ∧
      ∃ tree : Block, tree.IsTreeOf (lines nestedSample) ∧
        let env : Env := ⟨default, {}, none, true, [], fun _ cache => (.error .missing, cache)⟩
        { (all env ∅ nestedSample {}).1 with disabled := [] } =
          (tree.readText env ∅ {}).result tree.unclosed := by
  have balanced : Balanced (lines nestedSample) := by
    unfold Balanced
    decide +kernel
  let env : Env := ⟨default, {}, none, true, [], fun _ cache => (.error .missing, cache)⟩
  obtain ⟨⟨tree, isTree⟩, reads⟩ := all_reads_tree env ∅ nestedSample {} balanced
  exact ⟨balanced, tree, isTree, (reads tree isTree).2.1⟩

end Run

end ScriptLint.Preprocess
