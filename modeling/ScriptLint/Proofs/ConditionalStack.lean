import Mathlib.Data.List.Forall2
import ScriptLint.Proofs.ConditionalRun

/-!
# The stack of open groups

Directives need not be balanced. Whatever their order, the frames of a run agree with one another: each one knows
whether the code around it is active, so the top frame alone tells whether all of them are enabled.

What a line can do to the frames is said once, as `Turn`. The same turns decide what becomes of a group from its first
line to its last one. Its branches are recorded beside the run, and at most one of them is ever enabled.
-/

namespace ScriptLint.Preprocess

open List

/-! ## What a line does to the frames -/

/-- How a line with some role changes the frames. A further branch is enabled only where one was awaited. -/
inductive Turn : Role → List Frame → List Frame → Prop where
  | plain (frames : List Frame) : Turn .plain frames frames
  | opens {frames : List Frame} {around : Bool} (holds : Bool) (span : Span) (known : around = active frames) :
      Turn .opens frames (.opened around holds span :: frames)
  | elseIf {frame : Frame} {outer : List Frame} {holds : Bool} (asked : holds = true → frame.awaits = true) :
      Turn .elseIf (frame :: outer) (frame.branch holds :: outer)
  | otherwise (frame : Frame) (outer : List Frame) : Turn .otherwise (frame :: outer) (frame.elseBranch :: outer)
  | closes (frame : Frame) (outer : List Frame) : Turn .closes (frame :: outer) outer
  /-- There is no group to go on with. -/
  | stray {role : Role} (goesOn : role.goesOn = true) : Turn role [] []

namespace Run

theorem openGroup_turns (run : Run) (directive : Directive) {ask : Run → Bool × Run}
    (keeps : (ask run).2.place = run.place) : Turn .opens run.frames (run.openGroup directive ask).frames := by
  cases state : run.active with
  | false =>
    rw [openGroup_of_inactive run directive ask state]
    exact .opens false directive.span state.symm
  | true =>
    rw [openGroup_of_active run directive ask state]
    have kept : (ask run).2.frames = run.frames := congrArg Place.frames keeps
    rw [kept]
    exact .opens (ask run).1 directive.span state.symm

theorem elseIf_turns (run : Run) (directive : Directive) : Turn .elseIf run.frames (run.elseIf directive).frames := by
  cases frames : run.frames with
  | nil =>
    have kept : (run.elseIf directive).frames = [] := by simp only [elseIf, frames, report]
    rw [kept]
    exact .stray rfl
  | cons frame =>
    cases last : frame.sawElse with
    | true =>
      rw [elseIf_of_sawElse frames last]
      exact .elseIf fun holds => absurd holds Bool.false_ne_true
    | false =>
      cases awaits : frame.awaits with
      | true =>
        rw [elseIf_of_awaits frames awaits]
        exact .elseIf fun _ => awaits
      | false =>
        rw [elseIf_of_decided frames last awaits]
        exact .elseIf fun holds => absurd holds Bool.false_ne_true

theorem otherwise_turns (run : Run) (directive : Directive) :
    Turn .otherwise run.frames (run.otherwise directive).frames := by
  cases frames : run.frames with
  | nil =>
    have kept : (run.otherwise directive).frames = [] := by simp only [otherwise, frames, report]
    rw [kept]
    exact .stray rfl
  | cons frame outer =>
    have turned : (run.otherwise directive).frames = frame.elseBranch :: outer := by
      simp only [otherwise, frames]
    rw [turned]
    exact .otherwise frame outer

theorem endIf_turns (run : Run) (directive : Directive) : Turn .closes run.frames (run.endIf directive).frames := by
  cases frames : run.frames with
  | nil =>
    have kept : (run.endIf directive).frames = [] := by simp only [endIf, frames, report]
    rw [kept]
    exact .stray rfl
  | cons frame outer =>
    rw [endIf_of_open frames]
    exact .closes frame outer

theorem handle_turns (run : Run) (env : Env) (directive : Directive) :
    Turn directive.keyword.role run.frames (run.handle env directive).frames := by
  rw [handle_eq]
  cases directive.keyword.role with
  | opens => exact openGroup_turns run directive ((asks_ask directive).place run)
  | elseIf => exact elseIf_turns run directive
  | otherwise => exact otherwise_turns run directive
  | closes => exact endIf_turns run directive
  | plain =>
    dsimp only
    split
    · have kept : (run.perform env directive).frames = run.frames :=
        congrArg Place.frames (place_perform run env directive)
      rw [kept]
      exact .plain run.frames
    · exact .plain run.frames

theorem step_turns (env : Env) (run : Run) (line : Line) : Turn line.role run.frames (step env run line).frames := by
  cases kind : line.isDirective with
  | false =>
    have plain : line.role = .plain := by simp [Line.role, kind]
    have kept : (step env run line).frames = run.frames := congrArg Place.frames (place_step_of_text kind)
    rw [plain, kept]
    exact .plain run.frames
  | true =>
    have role : line.role = line.directive.keyword.role := by simp [Line.role, kind]
    have turns := handle_turns (run.closeDisabled line.start) env line.directive
    rw [frames_closeDisabled, ← role] at turns
    rcases step_of_directive kind with ⟨_, after⟩ | ⟨_, after⟩
    · rw [after]
      exact turns
    · rw [after]
      exact turns

end Run

/-! ## Frames that agree -/

/-- The flag of the frame on top. Code outside every group is active. -/
def topEnabled : List Frame → Bool
  | [] => true
  | frame :: _ => frame.enabled

theorem active_eq_topEnabled (frames : List Frame) : active frames = topEnabled frames := by
  cases frames <;> rfl

/-- Each frame knows the flag of the frame below it, and is enabled only in active code and after it was taken. -/
inductive Coherent : List Frame → Prop where
  | nil : Coherent []
  | cons {frame : Frame} {outer : List Frame} (around : frame.parentActive = topEnabled outer)
      (enabled : frame.enabled = true → frame.parentActive = true ∧ frame.taken = true) (below : Coherent outer) :
      Coherent (frame :: outer)

namespace Coherent

variable {frames : List Frame}

/-- The top frame speaks for all of them. -/
theorem active_iff (coherent : Coherent frames) : active frames ↔ ∀ frame ∈ frames, frame.enabled := by
  induction coherent with
  | nil => simp [active]
  | @cons frame outer around enabled _ ih =>
    rw [active_eq_topEnabled] at ih ⊢
    constructor
    · intro top
      have outerEnabled : topEnabled outer := around ▸ (enabled top).1
      exact forall_mem_cons.mpr ⟨top, ih.mp outerEnabled⟩
    · intro all
      exact all frame mem_cons_self

theorem turn {role : Role} {after : List Frame} (coherent : Coherent frames) (turn : Turn role frames after) :
    Coherent after := by
  cases turn with
  | plain => exact coherent
  | opens _ _ known =>
    refine .cons (known.trans (active_eq_topEnabled frames)) ?_ coherent
    simp [Frame.opened]
  | elseIf =>
    cases coherent with
    | cons around _ below =>
      refine .cons around ?_ below
      simp_all [Frame.awaits, Frame.branch]
  | otherwise =>
    cases coherent with
    | cons around enabled below =>
      unfold Frame.elseBranch
      split
      · exact .cons around (fun enabled => absurd enabled Bool.false_ne_true) below
      · refine .cons around ?_ below
        simp_all
  | closes =>
    cases coherent with
    | cons _ _ below => exact below
  | stray => exact coherent

end Coherent

/-! ## The life of a group -/

/-- What became of a group so far: whether the code around it was active, whether each of its branches was enabled,
the latest one first, and whether it had an `#else`. -/
structure Life where
  around : Bool
  branches : List Bool
  hasElse : Bool
  deriving Repr, DecidableEq

/-- The groups of a run: those that are open, innermost first, and those that had their end. -/
structure History where
  opened : List Life := []
  ended : List Life := []
  deriving Repr, DecidableEq

/-- Record a line, by whether the code before it and behind it is active. A branch begins with every line that opens a
group or goes on with one, also where such a line is out of place. -/
def History.record (history : History) (role : Role) (before behind : Bool) : History :=
  match role, history.opened with
  | .opens, outer => { history with opened := ⟨before, [behind], false⟩ :: outer }
  | .elseIf, life :: outer => { history with opened := { life with branches := behind :: life.branches } :: outer }
  | .otherwise, life :: outer =>
    { history with opened := { life with branches := behind :: life.branches, hasElse := true } :: outer }
  | .closes, life :: outer => ⟨outer, life :: history.ended⟩
  | _, _ => history

/-- What becomes of the groups while a run goes over some lines. -/
def Run.history (env : Env) : Run → History → List Line → History
  | _, history, [] => history
  | run, history, line :: rest =>
    Run.history env (step env run line) (history.record line.role run.active (step env run line).active) rest

/-- At most one branch was ever enabled, and exactly one if the group had an `#else` in active code. -/
def Life.Exclusive (life : Life) : Prop :=
  life.branches.count true ≤ 1 ∧ (life.around = true → life.hasElse = true → life.branches.count true = 1)

/-- A frame stands for the life of its group: its flag is that of the current branch, and `taken` tells whether there
was an enabled one. -/
structure Tells (life : Life) (frame : Frame) : Prop where
  around : life.around = frame.parentActive
  current : life.branches.head? = some frame.enabled
  hasElse : life.hasElse = frame.sawElse
  enabledOnce : life.branches.count true = (frame.parentActive && frame.taken).toNat
  taken : frame.sawElse = true → frame.taken = true

namespace Tells

variable {life : Life} {frame : Frame}

theorem exclusive (tells : Tells life frame) : life.Exclusive := by
  constructor
  · rw [tells.enabledOnce]
    exact Bool.toNat_le _
  · intro around hasElse
    have parentActive : frame.parentActive := tells.around ▸ around
    have taken : frame.taken := tells.taken (tells.hasElse ▸ hasElse)
    rw [tells.enabledOnce, parentActive, taken]
    rfl

theorem exclusive_of_mem {lives : List Life} {frames : List Frame} (tell : List.Forall₂ Tells lives frames) :
    ∀ life ∈ lives, life.Exclusive := by
  induction tell with
  | nil => exact forall_mem_nil _
  | cons tells _ ih => exact forall_mem_cons.mpr ⟨tells.exclusive, ih⟩

theorem opened (around holds : Bool) (span : Span) :
    Tells ⟨around, [around && holds], false⟩ (.opened around holds span) where
  around := rfl
  current := rfl
  hasElse := rfl
  enabledOnce := by cases around <;> cases holds <;> rfl
  taken sawElse := absurd sawElse Bool.false_ne_true

theorem branch {holds : Bool} (tells : Tells life frame) (asked : holds → frame.awaits) :
    Tells { life with branches := holds :: life.branches } (frame.branch holds) where
  around := tells.around
  current := rfl
  hasElse := tells.hasElse
  enabledOnce := by
    have once := tells.enabledOnce
    cases holds with
    | false => simpa [Frame.branch] using once
    | true =>
      simp_all [Frame.awaits, Frame.branch]
  taken sawElse := by simp [Frame.branch, tells.taken sawElse]

theorem elseBranch (tells : Tells life frame) :
    Tells { life with branches := frame.elseBranch.enabled :: life.branches, hasElse := true } frame.elseBranch := by
  have once := tells.enabledOnce
  cases last : frame.sawElse with
  | true =>
    have repeated : frame.elseBranch = { frame with enabled := false } := by simp [Frame.elseBranch, last]
    rw [repeated]
    refine ⟨tells.around, rfl, last.symm, ?_, tells.taken⟩
    simpa using once
  | false =>
    have first : frame.elseBranch =
        { frame with sawElse := true, enabled := frame.parentActive && !frame.taken, taken := true } := by
      simp [Frame.elseBranch, last]
    rw [first]
    refine ⟨tells.around, rfl, rfl, ?_, fun _ => rfl⟩
    rw [count_cons, once]
    cases frame.parentActive <;> cases frame.taken <;> rfl

end Tells

/-- The record of a run: its frames stand for the groups that are open, and no group had two enabled branches. -/
structure Recorded (history : History) (frames : List Frame) : Prop where
  opened : List.Forall₂ Tells history.opened frames
  ended : ∀ life ∈ history.ended, life.Exclusive

namespace Recorded

variable {history : History} {frames : List Frame}

theorem turn {role : Role} {after : List Frame} (recorded : Recorded history frames) (turn : Turn role frames after) :
    Recorded (history.record role (active frames) (active after)) after := by
  obtain ⟨opened, ended⟩ := history
  obtain ⟨tellOpened, exclusive⟩ := recorded
  cases turn with
  | plain => exact ⟨tellOpened, exclusive⟩
  | opens holds span known =>
    rw [← known]
    exact ⟨.cons (.opened _ holds span) tellOpened, exclusive⟩
  | elseIf asked =>
    cases tellOpened with
    | cons tells others => exact ⟨.cons (tells.branch asked) others, exclusive⟩
  | otherwise =>
    cases tellOpened with
    | cons tells others => exact ⟨.cons tells.elseBranch others, exclusive⟩
  | closes =>
    cases tellOpened with
    | cons tells others => exact ⟨others, forall_mem_cons.mpr ⟨tells.exclusive, exclusive⟩⟩
  | stray goesOn =>
    cases tellOpened with
    | nil =>
      have kept : History.record ⟨[], ended⟩ role (active []) (active []) = ⟨[], ended⟩ := by
        cases role with
        | opens => cases goesOn
        | _ => rfl
      rw [kept]
      exact ⟨.nil, exclusive⟩

end Recorded

namespace Run

/-- What holds between two lines goes on to hold over any lines. -/
theorem foldl_step_recorded (env : Env) (lines : List Line) {run : Run} {history : History}
    (coherent : Coherent run.frames) (recorded : Recorded history run.frames) :
    Coherent (lines.foldl (step env) run).frames ∧
      Recorded (run.history env history lines) (lines.foldl (step env) run).frames := by
  induction lines generalizing run history with
  | nil => exact ⟨coherent, recorded⟩
  | cons line _ ih =>
    have turn := step_turns env run line
    exact ih (coherent.turn turn) (recorded.turn turn)

/-- The frames are coherent behind any lines, in whatever order their directives come. The top frame then tells whether
all of them are enabled. Each frame stands for the life of its group, and no group ever has two enabled branches; one
that has an `#else` in active code has exactly one. -/
theorem frames_coherent (env : Env) (predefined : Macro.Table) (cache : IncludeCache) (lines : List Line) :
    let start : Run := { result := { macros := predefined }, cache }
    let run := lines.foldl (step env) start
    let history := start.history env {} lines
    Coherent run.frames ∧
      (run.active = true ↔ ∀ frame ∈ run.frames, frame.enabled = true) ∧
      List.Forall₂ Tells history.opened run.frames ∧
      ∀ life ∈ history.opened ++ history.ended, life.Exclusive := by
  intro start run history
  have nothing : Recorded {} start.frames := ⟨.nil, forall_mem_nil _⟩
  have agree : Coherent start.frames := .nil
  obtain ⟨coherent, recorded⟩ := foldl_step_recorded env lines agree nothing
  exact ⟨coherent, coherent.active_iff, recorded.opened,
    forall_mem_append.mpr ⟨Tells.exclusive_of_mem recorded.opened, recorded.ended⟩⟩

end Run

end ScriptLint.Preprocess
