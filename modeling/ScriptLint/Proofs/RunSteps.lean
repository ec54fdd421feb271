import ScriptLint.Preprocess.Run
import ScriptLint.Proofs.Lines

/-!
# Steps of a run

What a run keeps about groups and disabled ranges is apart from all else that it keeps. Directives that are not
about groups neither read nor change it, so they do the same wherever they stand. The disabled ranges are shown to
hold the bytes of those lines of text that a run passes over while it is inactive.
-/

namespace ScriptLint.Preprocess

/-- What a run keeps about groups and disabled ranges. -/
structure Place where
  frames : List Frame := []
  disabledFrom : Option Nat := none
  disabled : List Span := []

namespace Run

def place (run : Run) : Place := ⟨run.frames, run.disabledFrom, run.result.disabled⟩

/-- The same run at another place. -/
def moveTo (run : Run) (place : Place) : Run :=
  { run with
    frames := place.frames
    disabledFrom := place.disabledFrom
    result := { run.result with disabled := place.disabled } }

/-! ## Directives that are not about groups -/

section Elsewhere

variable (run : Run) (env : Env) (place : Place) (directive : Directive)

theorem define_moveTo : (run.moveTo place).define env directive = (run.define env directive).moveTo place := by
  unfold define
  cases Macro.parseDefine directive.rest with
  | error => rfl
  | ok =>
    have known : (run.moveTo place).result.macros = run.result.macros := rfl
    simp only [known]
    split <;> rfl

theorem enter_moveTo (inclusion : Inclusion) (path : Path) :
    (run.moveTo place).enter env inclusion path = (run.enter env inclusion path).moveTo place := by
  unfold enter
  split
  · rfl
  · simp only [moveTo]
    rcases env.load path run.cache with ⟨error | file, cache⟩ <;> rfl

theorem inclusion_moveTo : (run.moveTo place).inclusion env directive = (run.inclusion env directive).moveTo place := by
  unfold inclusion
  cases Target.read? directive.rest with
  | none => rfl
  | some target =>
    simp only
    cases env.resolver.resolve? env.system target.text (env.file.bind Path.parent?) with
    | none => rfl
    | some path => exact enter_moveTo run env place _ path

/-- Carrying out a directive in active code does not depend on the groups around it. -/
theorem perform_moveTo : (run.moveTo place).perform env directive = (run.perform env directive).moveTo place := by
  unfold perform
  cases directive.keyword with
  | define => exact define_moveTo run env place directive
  | undefine =>
    unfold undefine
    cases directive.name? <;> rfl
  | inclusion => exact inclusion_moveTo run env place directive
  | _ => rfl

theorem place_perform : (run.perform env directive).place = run.place := by
  have moved := congrArg Run.place (perform_moveTo run env run.place directive)
  exact moved

end Elsewhere

/-! ## Directives about groups -/

/-- The run with other frames, and with a diagnostic more if something is wrong. -/
def regroup (run : Run) (frames : List Frame) : Option (Problem × Span) → Run
  | none => { run with frames }
  | some (problem, span) => { run.report problem span with frames }

/-- What is done to a run changes the frames and adds a diagnostic at most, as its frames and definitions decide. -/
def Regroups (run : Run) (act : Run → Run) : Prop :=
  ∃ frames wrong, ∀ other, other.frames = run.frames → other.result.macros = run.result.macros →
    act other = other.regroup frames wrong

/-- A question that the definitions alone decide. -/
def Asks (ask : Run → Bool × Run) : Prop :=
  ∀ run : Run, ∃ holds wrong, ∀ other : Run, other.result.macros = run.result.macros →
    ask other = (holds, other.regroup other.frames wrong)

theorem asks_condition (word : String) (directive : Directive) : Asks (condition · word directive) := by
  intro run
  cases evaluated : Condition.evaluate run.result.macros directive.rest with
  | ok holds =>
    refine ⟨holds, none, fun other same => ?_⟩
    simp only [condition, same, evaluated, regroup]
  | error error =>
    refine ⟨false, some (.invalidCondition word error, directive.span), fun other same => ?_⟩
    simp only [condition, same, evaluated, regroup, report]

theorem asks_definedness (word : String) (wanted : Bool) (directive : Directive) :
    Asks (definedness · word wanted directive) := by
  intro run
  cases named : directive.name? with
  | some name =>
    refine ⟨run.result.macros.contains name == wanted, none, fun other same => ?_⟩
    simp only [definedness, named, same, regroup]
  | none =>
    refine ⟨false, some (.missingName word, directive.span), fun other same => ?_⟩
    simp only [definedness, named, regroup, report]

theorem Asks.moveTo {ask : Run → Bool × Run} (asks : Asks ask) (run : Run) (place : Place) :
    ask (run.moveTo place) = ((ask run).1, (ask run).2.moveTo place) := by
  obtain ⟨holds, wrong, answers⟩ := asks run
  rw [answers run rfl, answers (run.moveTo place) rfl]
  cases wrong <;> rfl

theorem Asks.place {ask : Run → Bool × Run} (asks : Asks ask) (run : Run) : (ask run).2.place = run.place := by
  obtain ⟨holds, wrong, answers⟩ := asks run
  rw [answers run rfl]
  cases wrong <;> rfl

section Groups

variable (run : Run) (directive : Directive) (ask : Run → Bool × Run)

theorem openGroup_of_active (active : run.active) :
    run.openGroup directive ask =
      { (ask run).2 with
        frames := .opened true (ask run).1 directive.span :: (ask run).2.frames } := by
  simp only [openGroup, active, ↓reduceIte]

theorem openGroup_of_inactive (inactive : run.active = false) :
    run.openGroup directive ask =
      { run with frames := .opened false false directive.span :: run.frames } := by
  simp only [openGroup, inactive, Bool.false_eq_true, ↓reduceIte]

variable {run directive} {frame : Frame} {outer : List Frame}

section

variable (frames : run.frames = frame :: outer)

include frames

theorem elseIf_of_sawElse (last : frame.sawElse) :
    run.elseIf directive =
      { run.report .elseIfAfterElse directive.span with frames := frame.branch false :: outer } := by
  simp only [elseIf, frames, last, ↓reduceIte]

theorem elseIf_of_awaits (awaits : frame.awaits) :
    run.elseIf directive =
      { (run.condition "#elif" directive).2 with
        frames := frame.branch (run.condition "#elif" directive).1 :: outer } := by
  have last : frame.sawElse = false := by simp_all [Frame.awaits]
  simp only [elseIf, frames, last, awaits, Bool.false_eq_true, ↓reduceIte]

theorem elseIf_of_decided (last : frame.sawElse = false)
    (awaits : frame.awaits = false) :
    run.elseIf directive = { run with frames := frame.branch false :: outer } := by
  simp only [elseIf, frames, last, awaits, Bool.false_eq_true, ↓reduceIte]

theorem otherwise_of_first (last : frame.sawElse = false) :
    run.otherwise directive = { run with frames := frame.elseBranch :: outer } := by
  simp only [otherwise, frames, last, Bool.false_eq_true, ↓reduceIte]

theorem endIf_of_open : run.endIf directive = { run with frames := outer } := by
  simp only [endIf, frames]

end

variable (run directive)

theorem regroups_openGroup {ask : Run → Bool × Run} (asks : Asks ask) : Regroups run (openGroup · directive ask) := by
  obtain ⟨holds, wrong, answers⟩ := asks run
  cases state : run.active with
  | true =>
    refine ⟨.opened true holds directive.span :: run.frames, wrong, fun other frames macros => ?_⟩
    have active := (congrArg Preprocess.active frames).trans state
    refine (openGroup_of_active other directive ask active).trans ?_
    rw [answers other macros, ← frames]
    cases wrong <;> rfl
  | false =>
    refine ⟨.opened false false directive.span :: run.frames, none, fun other frames _ => ?_⟩
    have inactive := (congrArg Preprocess.active frames).trans state
    rw [← frames]
    exact openGroup_of_inactive other directive ask inactive

theorem regroups_elseIf : Regroups run (elseIf · directive) := by
  cases frames : run.frames with
  | nil =>
    refine ⟨run.frames, some (.strayElseIf, directive.span), fun other same _ => ?_⟩
    simp only [elseIf, regroup, report, same, frames]
  | cons frame outer =>
    cases last : frame.sawElse with
    | true =>
      exact ⟨_, some (.elseIfAfterElse, _), fun other same _ => elseIf_of_sawElse (same.trans frames) last⟩
    | false =>
      cases awaits : frame.awaits with
      | true =>
        obtain ⟨holds, wrong, answers⟩ := asks_condition "#elif" directive run
        refine ⟨frame.branch holds :: outer, wrong, fun other same macros => ?_⟩
        have answer : other.condition "#elif" directive = _ := answers other macros
        refine (elseIf_of_awaits (same.trans frames) awaits).trans ?_
        rw [answer]
        cases wrong <;> rfl
      | false => exact ⟨_, none, fun other same _ => elseIf_of_decided (same.trans frames) last awaits⟩

theorem regroups_otherwise : Regroups run (otherwise · directive) := by
  cases frames : run.frames with
  | nil =>
    refine ⟨run.frames, some (.strayElse, directive.span), fun other same _ => ?_⟩
    simp only [otherwise, regroup, report, same, frames]
  | cons frame outer =>
    cases last : frame.sawElse with
    | true =>
      refine ⟨frame.elseBranch :: outer, some (.repeatedElse, directive.span), fun other same _ => ?_⟩
      simp only [otherwise, same, frames, last, ↓reduceIte, regroup]
    | false => exact ⟨_, none, fun other same _ => otherwise_of_first (same.trans frames) last⟩

theorem regroups_endIf : Regroups run (endIf · directive) := by
  cases frames : run.frames with
  | nil =>
    refine ⟨run.frames, some (.strayEndIf, directive.span), fun other same _ => ?_⟩
    simp only [endIf, regroup, report, same, frames]
  | cons _ outer => exact ⟨outer, none, fun other same _ => endIf_of_open (same.trans frames)⟩

/-- Directives about groups do the same in every environment, and any other directive is carried out in active code. -/
theorem handle_cases : (∃ act, Regroups run act ∧ ∀ env other, handle other env directive = act other) ∨
    ∀ env other, handle other env directive = if other.active then other.perform env directive else other := by
  unfold handle
  cases directive.keyword with
  | ifTrue => exact .inl ⟨_, regroups_openGroup run directive (asks_condition "#if" directive), fun _ _ => rfl⟩
  | ifDefined =>
    exact .inl ⟨_, regroups_openGroup run directive (asks_definedness "#ifdef" true directive), fun _ _ => rfl⟩
  | ifNotDefined =>
    exact .inl ⟨_, regroups_openGroup run directive (asks_definedness "#ifndef" false directive), fun _ _ => rfl⟩
  | elseIf => exact .inl ⟨_, regroups_elseIf run directive, fun _ _ => rfl⟩
  | otherwise => exact .inl ⟨_, regroups_otherwise run directive, fun _ _ => rfl⟩
  | endIf => exact .inl ⟨_, regroups_endIf run directive, fun _ _ => rfl⟩
  | _ => exact .inr fun _ _ => rfl

/-- All that a directive can do to a run. -/
theorem regroups_or_performs (env : Env) : (∃ frames wrong, run.handle env directive = run.regroup frames wrong) ∨
    run.handle env directive = run.perform env directive := by
  rcases handle_cases run directive with ⟨act, ⟨frames, wrong, regroups⟩, handles⟩ | performs
  · exact .inl ⟨frames, wrong, (handles env run).trans (regroups run rfl rfl)⟩
  · rw [performs]
    split
    · exact .inr rfl
    · exact .inl ⟨run.frames, none, rfl⟩

end Groups

/-! ## Disabled ranges -/

/-- What a run keeps about disabled ranges. -/
def ranges (run : Run) : Option Nat × List Span := (run.disabledFrom, run.result.disabled)

variable {run other : Run} {offset : Nat} {env : Env} {line : Line}

theorem ranges_eq_of_place_eq (same : run.place = other.place) : run.ranges = other.ranges := by
  have disabledFrom := congrArg Place.disabledFrom same
  have disabled := congrArg Place.disabled same
  exact Prod.ext disabledFrom disabled

/-- No directive touches the disabled ranges. -/
theorem ranges_handle (run : Run) (env : Env) (directive : Directive) :
    (run.handle env directive).ranges = run.ranges := by
  rcases regroups_or_performs run directive env with ⟨frames, wrong, same⟩ | same <;> rw [same]
  · cases wrong <;> rfl
  · exact ranges_eq_of_place_eq (place_perform run env directive)

/-- The bytes up to an offset that a run has reached and that are disabled. -/
def Disables (run : Run) (reached offset : Nat) : Prop :=
  (∃ range ∈ run.result.disabled, range.contains offset = true) ∨
    ∃ start, run.disabledFrom = some start ∧ start ≤ offset ∧ offset < reached

/-- A disabled range is open while the run is inactive, and only then. -/
structure Marked (run : Run) (reached : Nat) : Prop where
  none_of_active : run.active = true → run.disabledFrom = none
  some_of_inactive : run.active = false → ∃ start, run.disabledFrom = some start ∧ start ≤ reached

theorem disables_eq_of_place_eq {reached : Nat} (same : run.place = other.place) :
    run.Disables reached offset ↔ other.Disables reached offset := by
  have disabledFrom : run.disabledFrom = other.disabledFrom := congrArg Place.disabledFrom same
  have disabled : run.result.disabled = other.result.disabled := congrArg Place.disabled same
  rw [Disables, Disables, disabledFrom, disabled]

/-- Closing the open range keeps what is disabled up to there. -/
theorem closeDisabled_disables (run : Run) (stop offset : Nat) :
    (∃ range ∈ (run.closeDisabled stop).result.disabled, range.contains offset) ↔
      run.Disables stop offset := by
  unfold closeDisabled Disables
  cases run.disabledFrom with
  | none => simp
  | some start =>
    dsimp only
    split
    · simp [Span.contains, or_and_right, exists_or]
    · have past : ¬(start ≤ offset ∧ offset < stop) := by omega
      simp [past]

theorem disabledFrom_closeDisabled (run : Run) (stop : Nat) : (run.closeDisabled stop).disabledFrom = none := by
  unfold closeDisabled
  cases found : run.disabledFrom with
  | none => exact found
  | some => rfl

theorem frames_closeDisabled (run : Run) (stop : Nat) : (run.closeDisabled stop).frames = run.frames := by
  unfold closeDisabled
  cases run.disabledFrom <;> rfl

/-- Whether a line of text is passed over. -/
def passesOver (run : Run) (line : Line) : Bool := !line.isDirective && !run.active

/-- A run after a directive, before it is known whether a disabled range begins. -/
def handled (run : Run) (env : Env) (line : Line) : Run :=
  (run.closeDisabled line.start).handle env (Directive.read line.start line.text)

theorem step_eq_of_directive (directive : line.isDirective) : step env run line =
    if (run.handled env line).active then run.handled env line
    else { run.handled env line with disabledFrom := some line.next } := by
  simp only [step, directive, ↓reduceIte]
  rfl

theorem step_of_directive (directive : line.isDirective) :
    (run.handled env line).active ∧ step env run line = run.handled env line ∨
      (run.handled env line).active = false ∧
        step env run line = { run.handled env line with disabledFrom := some line.next } := by
  rw [step_eq_of_directive directive]
  cases (run.handled env line).active with
  | true => exact .inl ⟨rfl, rfl⟩
  | false => exact .inr ⟨rfl, rfl⟩

/-- Take in the comment of a line, if it has one. -/
def addRemark (run : Run) (line : Line) : Run :=
  match line.remark with
  | some remark =>
    { run with
      result := { run.result with
        suppressions := run.result.suppressions.addComment remark.body remark.offset line.number } }
  | none => run

theorem addRemark_moveTo (run : Run) (place : Place) (line : Line) :
    (run.moveTo place).addRemark line = (run.addRemark line).moveTo place := by
  unfold addRemark
  cases line.remark <;> rfl

theorem step_of_text (text : line.isDirective = false) :
    step env run line = if run.active then run.addRemark line else run := by
  simp only [step, text, Bool.false_eq_true, ↓reduceIte, addRemark]
  cases line.remark with
  | none => simp
  | some => rfl

/-- A line of text changes neither the groups nor the disabled ranges. -/
theorem place_step_of_text (text : line.isDirective = false) : (step env run line).place = run.place := by
  rw [step_of_text text]
  split
  · unfold addRemark
    cases line.remark <;> rfl
  · rfl

theorem active_eq_of_place_eq (same : run.place = other.place) : run.active = other.active := by
  have frames := congrArg Place.frames same
  exact congrArg Preprocess.active frames

theorem disabledFrom_handled (run : Run) (env : Env) (line : Line) : (run.handled env line).disabledFrom = none := by
  have same := ranges_handle (run.closeDisabled line.start) env (Directive.read line.start line.text)
  exact (congrArg Prod.fst same).trans (disabledFrom_closeDisabled run line.start)

theorem disabled_handled (run : Run) (env : Env) (line : Line) :
    (run.handled env line).result.disabled = (run.closeDisabled line.start).result.disabled :=
  congrArg Prod.snd (ranges_handle (run.closeDisabled line.start) env (Directive.read line.start line.text))

theorem step_marked (marked : run.Marked line.start) (filled : line.start < line.next) :
    (step env run line).Marked line.next := by
  cases kind : line.isDirective with
  | false =>
    have same : (step env run line).place = run.place := place_step_of_text kind
    have disabledFrom : (step env run line).disabledFrom = run.disabledFrom :=
      congrArg Place.disabledFrom same
    constructor
    · intro active
      rw [disabledFrom]
      exact marked.none_of_active (active_eq_of_place_eq same ▸ active)
    · intro inactive
      obtain ⟨start, found, le⟩ := marked.some_of_inactive (active_eq_of_place_eq same ▸ inactive)
      exact ⟨start, disabledFrom ▸ found, by omega⟩
  | true =>
    rcases step_of_directive kind with ⟨active, after⟩ | ⟨inactive, after⟩
    · rw [after]
      exact ⟨fun _ => disabledFrom_handled run env line, fun inactive => by simp [active] at inactive⟩
    · rw [after]
      constructor
      · intro active
        exact absurd (inactive.symm.trans active) Bool.false_ne_true
      · intro _
        exact ⟨line.next, rfl, Nat.le_refl _⟩

/-- A step disables the bytes of the line that it passes over, and no others. -/
theorem step_disables (marked : run.Marked line.start) (filled : line.start < line.next) :
    (step env run line).Disables line.next offset ↔
      run.Disables line.start offset ∨
        run.passesOver line ∧ line.extent.contains offset := by
  cases kind : line.isDirective with
  | false =>
    have same : (step env run line).place = run.place := place_step_of_text kind
    have disabledFrom : (step env run line).disabledFrom = run.disabledFrom :=
      congrArg Place.disabledFrom same
    have disabled : (step env run line).result.disabled = run.result.disabled :=
      congrArg Place.disabled same
    unfold Disables
    rw [disabledFrom, disabled]
    cases state : run.active with
    | true => simp [passesOver, state, marked.none_of_active state]
    | false =>
      obtain ⟨start, found, le⟩ := marked.some_of_inactive state
      simp only [passesOver, kind, state, found, Line.extent, Span.contains_iff, Option.some.injEq,
        exists_eq_left', Bool.not_false, Bool.and_self, true_and, or_assoc]
      apply or_congr_right
      omega
  | true =>
    rw [← closeDisabled_disables run line.start offset, ← disabled_handled run env line]
    simp only [passesOver, kind, Bool.not_true, Bool.false_and, Bool.false_eq_true, false_and]
    rcases step_of_directive kind with ⟨active, after⟩ | ⟨inactive, after⟩
    · rw [after]
      simp [Disables, disabledFrom_handled]
    · rw [after]
      have empty : ¬(line.next ≤ offset ∧ offset < line.next) := by omega
      simp [Disables, empty]

/-- The lines of text that a run passes over. -/
def passedOver (env : Env) : Run → List Line → List Line
  | _, [] => []
  | run, line :: rest =>
    if run.passesOver line then line :: passedOver env (step env run line) rest
    else passedOver env (step env run line) rest

/-- A run disables the bytes of the lines that it passes over, and no others. -/
theorem foldl_step_disables {start stop : Nat} {lines : List Line} (chained : Chained start lines stop)
    (marked : run.Marked start) :
    (lines.foldl (step env) run).Disables stop offset ↔
      run.Disables start offset ∨ ∃ line ∈ passedOver env run lines, line.extent.contains offset := by
  induction lines generalizing run start with
  | nil =>
    obtain rfl : start = stop := chained
    simp [passedOver]
  | cons line _ ih =>
    obtain ⟨rfl, filled, chained⟩ := chained
    rw [List.foldl_cons, ih chained (step_marked marked filled), step_disables marked filled, or_assoc]
    apply or_congr_right
    rw [passedOver]
    cases run.passesOver line <;> simp

/-- The report on open groups adds diagnostics and nothing else. -/
theorem exists_reportOpen (run : Run) :
    ∃ diagnostics, run.reportOpen = { run with result := { run.result with diagnostics } } := by
  let added (other : Run) : Prop := ∃ diagnostics, other = { run with result := { run.result with diagnostics } }
  refine List.foldlRecOn (motive := added) run.frames.reverse _ ⟨_, rfl⟩ fun other same frame _ => ?_
  obtain ⟨_, rfl⟩ := same
  exact ⟨_, rfl⟩

theorem place_reportOpen (run : Run) : run.reportOpen.place = run.place := by
  obtain ⟨_, same⟩ := run.exists_reportOpen
  rw [same]
  rfl

/-- The disabled ranges of a document hold the bytes of the lines that its run passes over, and no others. -/
theorem all_disables (env : Env) (predefined : Macro.Table) (text : List Char) (cache : IncludeCache)
    (offset : Nat) :
    (∃ range ∈ (all env predefined text cache).1.disabled, range.contains offset) ↔
      ∃ line ∈ passedOver env { result := { macros := predefined }, cache } (lines text),
        line.extent.contains offset := by
  let initial : Run := { result := { macros := predefined }, cache }
  have marked : initial.Marked 0 := ⟨fun _ => rfl, fun inactive => nomatch inactive⟩
  have disables : ((lines text).foldl (step env) initial).Disables (Text.byteLength text) offset ↔
      initial.Disables 0 offset ∨ ∃ line ∈ passedOver env initial (lines text), line.extent.contains offset :=
    foldl_step_disables (lines_chained text) marked
  have nothing : ¬initial.Disables 0 offset := by simp [Disables, initial]
  rw [or_iff_right nothing] at disables
  rw [← disables, ← disables_eq_of_place_eq (place_reportOpen _), ← closeDisabled_disables]
  rfl

end Run

end ScriptLint.Preprocess
