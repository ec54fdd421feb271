import ScriptLint.Proofs.ConditionalTree

/-!
# Includes in a run

What a run keeps about includes is apart from all else that it keeps. Only an include directive in active code reads
or changes it, and it does so through the search for its target and through the loader. Hence two runs over one text
give the same as long as their searches find the same files and their loaders give the same for these, whatever is in
their caches.
-/

namespace ScriptLint

open List

namespace Preprocessed

/-- All includes that were carried out, with a file or without. -/
def inclusions (pre : Preprocessed) : List Inclusion := pre.includes ++ pre.missing

/-- The targets that were looked for. -/
def targets (pre : Preprocessed) : List String := pre.inclusions.map Inclusion.target

end Preprocessed

namespace Preprocess

/-- What an include directive names. -/
def Line.target? (line : Line) : Option Target :=
  if line.isDirective && line.directive.keyword == .inclusion then Target.read? line.directive.rest else none

namespace Env

/-- Where an include is found. -/
def search (env : Env) (target : String) : Option Path :=
  env.resolver.resolve? env.system target (env.file.bind Path.parent?)

/-- The file that a definition is noted for; those of the document itself have none. -/
def owner (env : Env) : Option Path := if env.isDocument then none else env.file

end Env

/-- What a run keeps about includes. -/
structure Intake where
  includes : List Inclusion
  missing : List Inclusion
  files : List IncludedFile
  sawCycle : Bool
  cache : IncludeCache

namespace Run

def intake (run : Run) : Intake :=
  ⟨run.result.includes, run.result.missing, run.result.files, run.result.sawCycle, run.cache⟩

/-- The same run with other includes behind it. -/
def withIntake (run : Run) (intake : Intake) : Run :=
  { run with
    result := { run.result with
      includes := intake.includes
      missing := intake.missing
      files := intake.files
      sawCycle := intake.sawCycle }
    cache := intake.cache }

@[simp] theorem intake_withIntake (run : Run) (intake : Intake) : (run.withIntake intake).intake = intake := rfl

@[simp] theorem withIntake_intake (run : Run) : run.withIntake run.intake = run := rfl

/-- The same run with another cache. -/
def withCache (run : Run) (cache : IncludeCache) : Run := run.withIntake { run.intake with cache }

/-! ## Lines that are no includes -/

section Elsewhere

variable (run : Run) (intake : Intake) (directive : Directive)

@[simp] theorem active_withIntake : (run.withIntake intake).active = run.active := rfl

theorem closeDisabled_withIntake (stop : Nat) :
    (run.withIntake intake).closeDisabled stop = (run.closeDisabled stop).withIntake intake := by
  obtain ⟨result, frames, disabledFrom, cache⟩ := run
  cases disabledFrom <;> rfl

theorem intake_closeDisabled (stop : Nat) : (run.closeDisabled stop).intake = run.intake := by
  have same := closeDisabled_withIntake run run.intake stop
  rw [withIntake_intake] at same
  rw [same, intake_withIntake]

theorem addRemark_withIntake (line : Line) :
    (run.withIntake intake).addRemark line = (run.addRemark line).withIntake intake := by
  unfold addRemark
  cases line.remark <;> rfl

variable {env other : Env}

theorem define_withIntake (owner : env.owner = other.owner) :
    (run.withIntake intake).define other directive = (run.define env directive).withIntake intake := by
  unfold Env.owner at owner
  unfold define
  cases Macro.parseDefine directive.rest with
  | error => rfl
  | ok =>
    have known : (run.withIntake intake).result.macros = run.result.macros := rfl
    simp only [known, owner]
    split <;> rfl

/-- A directive in active code that names no file to include. -/
theorem perform_withIntake (owner : env.owner = other.owner)
    (plain : directive.keyword = .inclusion → Target.read? directive.rest = none) :
    (run.withIntake intake).perform other directive = (run.perform env directive).withIntake intake := by
  unfold perform
  cases keyword : directive.keyword with
  | define => exact define_withIntake run intake directive owner
  | undefine =>
    unfold undefine
    cases directive.name? <;> rfl
  | inclusion =>
    simp only [inclusion, plain keyword]
    rfl
  | _ => rfl

theorem handle_withIntake (owner : env.owner = other.owner)
    (plain : run.active → directive.keyword = .inclusion → Target.read? directive.rest = none) :
    (run.withIntake intake).handle other directive = (run.handle env directive).withIntake intake := by
  rcases handle_cases run directive with ⟨act, ⟨frames, wrong, regroups⟩, handles⟩ | performs
  · rw [handles, handles, regroups run rfl rfl, regroups (run.withIntake intake) rfl rfl]
    cases wrong <;> rfl
  · rw [performs, performs, active_withIntake]
    split
    · exact perform_withIntake run intake directive owner (plain ‹_›)
    · rfl

variable {line : Line}

/-- A line that includes nothing neither reads nor changes what a run keeps about includes. -/
theorem step_withIntake (owner : env.owner = other.owner) (plain : run.active → line.target? = none) :
    step other (run.withIntake intake) line = (step env run line).withIntake intake := by
  cases kind : line.isDirective with
  | false =>
    rw [step_of_text kind, step_of_text kind, active_withIntake, addRemark_withIntake]
    split <;> rfl
  | true =>
    have handled : (run.withIntake intake).handled other line = (run.handled env line).withIntake intake := by
      unfold handled
      rw [closeDisabled_withIntake]
      apply handle_withIntake _ _ _ owner
      intro active keyword
      have none := plain ((congrArg Preprocess.active (frames_closeDisabled run line.start)).symm.trans active)
      have isInclusion : line.directive.keyword = .inclusion := keyword
      rwa [Line.target?, kind, isInclusion] at none
    rw [step_eq_of_directive kind, step_eq_of_directive kind, handled, active_withIntake]
    split <;> rfl

theorem intake_step (env : Env) (plain : run.active → line.target? = none) :
    (step env run line).intake = run.intake := by
  have same : step env (run.withIntake run.intake) line = _ := step_withIntake run run.intake rfl plain
  rw [withIntake_intake] at same
  rw [same, intake_withIntake]

theorem step_withCache (cache : IncludeCache) (owner : env.owner = other.owner)
    (plain : run.active → line.target? = none) :
    step other (run.withCache cache) line = (step env run line).withCache cache := by
  rw [withCache, step_withIntake run _ owner plain, withCache, intake_step run env plain]

end Elsewhere

/-! ## Lines that are includes -/

end Run

/-- An include as a run records it. -/
def Env.record (env : Env) (directive : Directive) (target : Target) : Inclusion :=
  let start := directive.restOffset + target.offset
  ⟨target.text, ⟨start, start + target.text.utf8ByteSize⟩, target.angled, env.search target.text⟩

namespace Intake

/-- What preprocessing gives about includes, with the cache that it leaves. -/
def ofResult (pre : Preprocessed) (cache : IncludeCache) : Intake :=
  ⟨pre.includes, pre.missing, pre.files, pre.sawCycle, cache⟩

def inclusions (intake : Intake) : List Inclusion := intake.includes ++ intake.missing

def targets (intake : Intake) : List String := intake.inclusions.map Inclusion.target

end Intake

namespace Run

/-- Carry out an include whose target could be read. -/
def follow (run : Run) (env : Env) (directive : Directive) (target : Target) : Run :=
  let record := env.record directive target
  match env.search target.text with
  | none => run.miss { record with resolved := none } (.includeNotFound target.text)
  | some path => run.enter env { record with resolved := some path } path

variable {env : Env} {run : Run} {target : Target}

theorem step_of_target {line : Line} (named : line.target? = some target) (active : run.active) :
    step env run line = (run.closeDisabled line.start).follow env line.directive target := by
  have still : (run.closeDisabled line.start).active :=
    (congrArg Preprocess.active (frames_closeDisabled run line.start)).trans active
  unfold Line.target? at named
  split at named
  · rename_i isInclusion
    obtain ⟨isDirective, keyword⟩ := Bool.and_eq_true_iff.mp isInclusion
    have keyword := eq_of_beq keyword
    have handled : run.handled env line = (run.closeDisabled line.start).perform env line.directive := by
      have unfolded : run.handled env line = (run.closeDisabled line.start).handle env line.directive := rfl
      simp only [unfolded, handle, keyword, still, ↓reduceIte]
    have follows : (run.closeDisabled line.start).perform env line.directive =
        (run.closeDisabled line.start).follow env line.directive target := by
      simp only [perform, keyword, inclusion, named]
      rfl
    have after : (run.handled env line).active := by
      rw [handled, active_eq_of_place_eq (place_perform _ env line.directive), still]
    rcases @step_of_directive run env line isDirective with ⟨_, same⟩ | ⟨inactive, _⟩
    · rw [same, handled, follows]
    · exact absurd (inactive.symm.trans after) (by decide)
  · cases named

/-- What following an include can come to: no file is found, the file is being included already, or it is loaded, with
success or without. -/
theorem follow_cases (run : Run) (env : Env) (directive : Directive) (target : Target) :
    let record := env.record directive target
    let after := (run.follow env directive target).intake
    (env.search target.text = none ∧ after = { run.intake with missing := run.intake.missing ++ [record] }) ∨
      ∃ path, env.search target.text = some path ∧
        ((path ∈ env.stack ∧
            after = { run.intake with includes := run.intake.includes ++ [record], sawCycle := true }) ∨
          (path ∉ env.stack ∧
            ((∃ file, (env.load path run.cache).1 = .ok file ∧
                after = { run.intake with
                  includes := run.intake.includes ++ [record]
                  files := run.intake.files ++ [file]
                  cache := (env.load path run.cache).2 }) ∨
              (∃ error, (env.load path run.cache).1 = .error error ∧
                after = { run.intake with
                  missing := run.intake.missing ++ [record]
                  cache := (env.load path run.cache).2 })))) := by
  intro record after
  cases searched : env.search target.text with
  | none =>
    refine .inl ⟨rfl, ?_⟩
    simp only [after, record, follow, Env.record, searched]
    rfl
  | some path =>
    refine .inr ⟨path, rfl, ?_⟩
    by_cases included : path ∈ env.stack
    · refine .inl ⟨included, ?_⟩
      simp only [after, record, follow, Env.record, searched, enter, contains_iff_mem, included]
      rfl
    · refine .inr ⟨included, ?_⟩
      simp only [after, record, follow, Env.record, searched, enter, contains_iff_mem, included]
      rcases env.load path run.cache with ⟨error | file, cache⟩
      · exact .inr ⟨error, rfl, rfl⟩
      · exact .inl ⟨file, rfl, rfl⟩

/-- Following an include records it, and nothing else is recorded. -/
theorem mem_inclusions_follow {directive : Directive} {inclusion : Inclusion} :
    inclusion ∈ (run.follow env directive target).intake.inclusions ↔
      inclusion ∈ run.intake.inclusions ∨ inclusion = env.record directive target := by
  rcases follow_cases run env directive target with
    ⟨_, after⟩ | ⟨path, _, ⟨_, after⟩ | ⟨_, ⟨file, _, after⟩ | ⟨error, _, after⟩⟩⟩ <;>
  · rw [after]
    grind [Intake.inclusions]

theorem mem_targets_follow {directive : Directive} {name : String} :
    name ∈ (run.follow env directive target).intake.targets ↔ name ∈ run.intake.targets ∨ name = target.text := by
  simp only [Intake.targets, mem_map, mem_inclusions_follow]
  constructor
  · rintro ⟨inclusion, recorded | rfl, rfl⟩
    · exact .inl ⟨inclusion, recorded, rfl⟩
    · exact .inr rfl
  · rintro (⟨inclusion, recorded, rfl⟩ | rfl)
    · exact ⟨inclusion, .inl recorded, rfl⟩
    · exact ⟨env.record directive target, .inr rfl, rfl⟩

end Run

/-- What is found for a target is not being included yet, and loading it has a certain outcome. -/
def Env.Gives (env : Env) (Holds : IncludeCache → Prop) (outcome : Path → Except FileSystem.ReadError IncludedFile)
    (target : String) : Prop :=
  ∀ path, env.search target = some path → path ∉ env.stack ∧
    ∀ cache, Holds cache → (env.load path cache).1 = outcome path ∧ Holds (env.load path cache).2

/-- The files that were taken in are those among the outcomes of what was found. -/
def Intake.Exact (intake : Intake) (env : Env) (outcome : Path → Except FileSystem.ReadError IncludedFile) : Prop :=
  ∀ file, file ∈ intake.files ↔
    ∃ target ∈ intake.targets, ∃ path, env.search target = some path ∧ outcome path = .ok file

namespace Run

variable {run : Run}

theorem follow_exact {Holds : IncludeCache → Prop} {outcome : Path → Except FileSystem.ReadError IncludedFile}
    {env : Env} {directive : Directive} {target : Target} (gives : env.Gives Holds outcome target.text)
    (holds : Holds run.intake.cache) (exactly : run.intake.Exact env outcome) :
    Holds (run.follow env directive target).intake.cache ∧
      (run.follow env directive target).intake.Exact env outcome := by
  have after (file : IncludedFile) :
      (∃ name ∈ (run.follow env directive target).intake.targets, ∃ path,
        env.search name = some path ∧ outcome path = .ok file) ↔
      file ∈ run.intake.files ∨ ∃ path, env.search target.text = some path ∧ outcome path = .ok file := by
    rw [exactly file]
    simp only [mem_targets_follow, or_and_right, exists_or, exists_eq_left]
  simp only [Intake.Exact, after]
  rcases follow_cases run env directive target with
    ⟨nowhere, same⟩ | ⟨path, somewhere, ⟨included, _⟩ | ⟨_, ⟨file, loaded, same⟩ | ⟨error, loaded, same⟩⟩⟩
  · rw [same, nowhere]
    exact ⟨holds, fun file => by simp⟩
  · exact absurd included (gives path somewhere).1
  all_goals
    obtain ⟨given, keeps⟩ := (gives path somewhere).2 run.cache holds
    rw [loaded] at given
    rw [same, somewhere]
    refine ⟨keeps, fun other => ?_⟩
    simp [← given, eq_comm]

/-! ## Runs -/

theorem plain_or_target (run : Run) (line : Line) :
    (run.active → line.target? = none) ∨ run.active ∧ ∃ target, line.target? = some target := by
  by_cases plain : run.active → line.target? = none
  · exact .inl plain
  · obtain ⟨active, named⟩ := Classical.not_imp.mp plain
    exact .inr ⟨active, Option.ne_none_iff_exists'.mp named⟩

theorem inclusions_subset_step (env : Env) (run : Run) (line : Line) :
    run.intake.inclusions ⊆ (step env run line).intake.inclusions := by
  intro inclusion recorded
  rcases run.plain_or_target line with plain | ⟨active, target, named⟩
  · rwa [intake_step run env plain]
  · rw [step_of_target named active, mem_inclusions_follow]
    refine .inl ?_
    rwa [intake_closeDisabled]

theorem inclusions_subset_foldl (env : Env) (run : Run) (lines : List Line) :
    run.intake.inclusions ⊆ (lines.foldl (step env) run).intake.inclusions := by
  induction lines generalizing run with
  | nil => exact List.Subset.refl _
  | cons line _ ih => exact List.Subset.trans (inclusions_subset_step env run line) (ih _)

/-- A target that is met is among those that a run has looked for in the end. -/
theorem mem_targets_of_met (env : Env) {line : Line} {target : Target} (named : line.target? = some target)
    (active : run.active) (lines : List Line) :
    target.text ∈ (lines.foldl (step env) (step env run line)).intake.targets := by
  have recorded : env.record line.directive target ∈ (step env run line).intake.inclusions := by
    rw [step_of_target named active, mem_inclusions_follow]
    exact .inr rfl
  exact mem_map_of_mem (inclusions_subset_foldl env (step env run line) lines recorded)

/-- What holds of the includes at first, and is kept whenever a target is looked for, holds at the end. -/
theorem foldl_intake {Holds : Intake → Prop} {env : Env} {lines : List Line} (start : Holds run.intake)
    (keeps : ∀ (before : Run) (line : Line) (target : Target), line ∈ lines → line.target? = some target →
      target.text ∈ (lines.foldl (step env) run).intake.targets → Holds before.intake →
      Holds (before.follow env line.directive target).intake) : Holds (lines.foldl (step env) run).intake := by
  induction lines generalizing run with
  | nil => exact start
  | cons line lines ih =>
    refine ih ?_ fun before other target found => keeps before other target (mem_cons_of_mem line found)
    rcases run.plain_or_target line with plain | ⟨active, target, named⟩
    · rwa [intake_step run env plain]
    · have sought := mem_targets_of_met env named active lines
      rw [step_of_target named active]
      exact keeps _ line target mem_cons_self named sought (by rwa [intake_closeDisabled])

/-- Two runs find the same for a target, and their loaders give the same for it as long as the caches are as they
should be. -/
structure Agree (Holds Holds' : IncludeCache → Prop) (env other : Env) (target : String) : Prop where
  search : other.search target = env.search target
  free : ∀ path, env.search target = some path → path ∉ env.stack ∧ path ∉ other.stack
  load : ∀ path, env.search target = some path → ∀ cache cache', Holds cache → Holds' cache' →
    (other.load path cache').1 = (env.load path cache).1 ∧
      Holds (env.load path cache).2 ∧ Holds' (other.load path cache').2

section Alike

variable {Holds Holds' : IncludeCache → Prop} {env other : Env}

theorem follow_alike (directive : Directive) {target : Target} (agree : Agree Holds Holds' env other target.text)
    {run : Run} {cache : IncludeCache} (holds : Holds run.cache) (holds' : Holds' cache) :
    ∃ after, (run.withCache cache).follow other directive target = (run.follow env directive target).withCache after ∧
      Holds (run.follow env directive target).cache ∧ Holds' after := by
  unfold follow Env.record
  rw [agree.search]
  cases searched : env.search target.text with
  | none => exact ⟨cache, rfl, holds, holds'⟩
  | some path =>
    obtain ⟨free, free'⟩ := agree.free path searched
    obtain ⟨same, keeps, keeps'⟩ := agree.load path searched run.cache cache holds holds'
    have kept : (run.withCache cache).cache = cache := rfl
    simp only [enter, contains_iff_mem, free, free', ↓reduceIte, kept]
    generalize env.load path run.cache = loaded at same keeps
    generalize other.load path cache = loaded' at same keeps'
    obtain ⟨outcome, after⟩ := loaded
    obtain ⟨outcome', after'⟩ := loaded'
    obtain rfl : outcome' = outcome := same
    cases outcome' <;> exact ⟨after', rfl, keeps, keeps'⟩

/-- Two runs that agree about all targets which both look for differ in their caches alone. -/
theorem foldl_alike (lines : List Line) (owner : env.owner = other.owner) {run : Run} {cache : IncludeCache}
    (holds : Holds run.cache) (holds' : Holds' cache)
    (agree : ∀ target, target ∈ (lines.foldl (step env) run).intake.targets →
      target ∈ (lines.foldl (step other) (run.withCache cache)).intake.targets →
      Agree Holds Holds' env other target) :
    ∃ after, lines.foldl (step other) (run.withCache cache) = (lines.foldl (step env) run).withCache after ∧
      Holds (lines.foldl (step env) run).cache ∧ Holds' after := by
  induction lines generalizing run cache with
  | nil => exact ⟨cache, rfl, holds, holds'⟩
  | cons line lines ih =>
    rw [foldl_cons, foldl_cons] at agree ⊢
    rcases run.plain_or_target line with plain | ⟨active, target, named⟩
    · have kept : (step env run line).cache = run.cache := congrArg Intake.cache (intake_step run env plain)
      rw [step_withCache run cache owner plain] at agree ⊢
      exact ih (by rwa [kept]) holds' agree
    · let closed := run.closeDisabled line.start
      have kept : closed.cache = run.cache := congrArg Intake.cache (intake_closeDisabled run line.start)
      have closes : (run.withCache cache).closeDisabled line.start = closed.withCache cache := by
        rw [withCache, closeDisabled_withIntake, withCache, intake_closeDisabled]
      have active' : (run.withCache cache).active := active
      have met := agree target.text (mem_targets_of_met env named active lines)
        (mem_targets_of_met other named active' lines)
      obtain ⟨after, same, keeps, keeps'⟩ := follow_alike line.directive met (kept ▸ holds) holds'
      have follows : step env run line = closed.follow env line.directive target := step_of_target named active
      have follows' : step other (run.withCache cache) line = (step env run line).withCache after := by
        rw [follows, ← same, ← closes]
        exact step_of_target named active'
      rw [← follows] at keeps
      rw [follows'] at agree ⊢
      exact ih keeps keeps' agree

end Alike

/-! ## Whole texts -/

theorem reportOpen_withIntake (run : Run) (intake : Intake) :
    (run.withIntake intake).reportOpen = run.reportOpen.withIntake intake := by
  suffices general : ∀ (frames : List Frame) (other : Run),
      frames.foldl (fun run frame => run.report .unclosedGroup frame.openedAt) (other.withIntake intake) =
        (frames.foldl (fun run frame => run.report .unclosedGroup frame.openedAt) other).withIntake intake from
    general run.frames.reverse run
  intro frames
  induction frames with
  | nil => intro other; rfl
  | cons frame _ ih => intro other; exact ih (other.report .unclosedGroup frame.openedAt)

theorem finish_withIntake (run : Run) (intake : Intake) (length : Nat) :
    (run.withIntake intake).finish length =
      ({ (run.finish length).1 with
          includes := intake.includes
          missing := intake.missing
          files := intake.files
          sawCycle := intake.sawCycle }, intake.cache) := by
  unfold finish
  rw [reportOpen_withIntake, closeDisabled_withIntake]
  rfl

/-- What a run keeps about includes is what it gives. -/
theorem intake_finish (run : Run) (length : Nat) :
    .ofResult (run.finish length).1 (run.finish length).2 = run.intake := by
  have same := finish_withIntake run run.intake length
  rw [withIntake_intake] at same
  rw [same]
  rfl

theorem finish_withCache (run : Run) (cache : IncludeCache) (length : Nat) :
    (run.withCache cache).finish length = ((run.finish length).1, cache) := by
  have same := congrArg Prod.fst (finish_withIntake run run.intake length)
  rw [withCache, finish_withIntake]
  exact Prod.ext same.symm rfl

section All

variable {env other : Env} {predefined : Macro.Table} {text : List Char} {cache : IncludeCache}

/-- What holds of the includes at first, and is kept whenever a target is looked for, holds behind a text. -/
theorem all_intake (Holds : Intake → Prop) (start : Holds ⟨[], [], [], false, cache⟩)
    (keeps : ∀ (before : Run) (line : Line) (target : Target), line ∈ lines text → line.target? = some target →
      target.text ∈ (all env predefined text cache).1.targets → Holds before.intake →
      Holds (before.follow env line.directive target).intake) :
    Holds (.ofResult (all env predefined text cache).1 (all env predefined text cache).2) := by
  rw [all, intake_finish]
  refine foldl_intake start fun before line target found named sought => ?_
  refine keeps before line target found named ?_
  rw [← intake_finish _ (Text.byteLength text)] at sought
  exact sought

/-- Two runs over a text that agree about all targets which both look for give the same. -/
theorem all_alike {Holds Holds' : IncludeCache → Prop} (owner : env.owner = other.owner) {cache' : IncludeCache}
    (holds : Holds cache) (holds' : Holds' cache')
    (agree : ∀ target, target ∈ (all env predefined text cache).1.targets →
      target ∈ (all other predefined text cache').1.targets → Agree Holds Holds' env other target) :
    (all other predefined text cache').1 = (all env predefined text cache).1 ∧
      Holds (all env predefined text cache).2 ∧ Holds' (all other predefined text cache').2 := by
  let start : Run := { result := { macros := predefined }, cache }
  have begins : Holds start.cache := holds
  obtain ⟨after, same, keeps, keeps'⟩ := foldl_alike (lines text) owner begins holds' (by
    intro target sought sought'
    rw [← intake_finish _ (Text.byteLength text)] at sought sought'
    exact agree target sought sought')
  have ends : all other predefined text cache' = ((all env predefined text cache).1, after) := by
    have finished := finish_withCache ((lines text).foldl (step env) start) after (Text.byteLength text)
    rw [← same] at finished
    exact finished
  have kept : (all env predefined text cache).2 = ((lines text).foldl (step env) start).cache :=
    congrArg Intake.cache (intake_finish _ _)
  rw [ends, kept]
  exact ⟨rfl, keeps, keeps'⟩

/-- Behind a text, the files that a run holds are those among the outcomes of what it found. -/
theorem all_exact {Holds : IncludeCache → Prop} {outcome : Path → Except FileSystem.ReadError IncludedFile}
    (holds : Holds cache)
    (gives : ∀ target ∈ (all env predefined text cache).1.targets, env.Gives Holds outcome target) :
    (Intake.ofResult (all env predefined text cache).1 (all env predefined text cache).2).Exact env outcome := by
  have kept : Holds (all env predefined text cache).2 ∧
      (Intake.ofResult (all env predefined text cache).1 (all env predefined text cache).2).Exact env outcome := by
    apply all_intake fun intake => Holds intake.cache ∧ intake.Exact env outcome
    · exact ⟨holds, fun file => by simp [Intake.targets, Intake.inclusions]⟩
    · intro before line target _ _ sought both
      exact follow_exact (gives target.text sought) both.1 both.2
  exact kept.2

end All

end Run

end Preprocess

end ScriptLint
