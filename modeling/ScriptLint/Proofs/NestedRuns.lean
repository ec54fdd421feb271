import ScriptLint.Proofs.ConditionalRun
import ScriptLint.Proofs.CyclicIncludes

/-!
# Nested runs

Preprocessing as a machine that goes from line to line. An include whose file has to be read from its text stops the run
that met it and starts another one on top; at the end of a text the run below goes on. One stack of paths is shared by
all of them: a path is pushed when a run begins and popped when it ends. The machine has no bound on how deep it may go,
so that it comes to an end at all is a theorem. It gives what preprocessing gives.
-/

namespace ScriptLint.Preprocess

open Relation List

/-- Ways to load files that agree about what a line asks for make the same of the line. -/
theorem Run.step_of_load_eq {env : Env} {load other : Loader} {run : Run} {line : Line}
    (same : run.active → ∀ target path, line.target? = some target → env.search target.text = some path →
      path ∉ env.stack → load path run.cache = other path run.cache) :
    step { env with load } run line = step { env with load := other } run line := by
  rcases run.plain_or_target line with plain | ⟨active, target, named⟩
  · have unread := @step_withIntake run run.intake { env with load := other } { env with load } line rfl plain
    rwa [withIntake_intake, ← intake_step run _ plain] at unread
  · rw [step_of_target named active, step_of_target named active]
    have cache : (run.closeDisabled line.start).cache = run.cache :=
      congrArg Intake.cache (intake_closeDisabled run line.start)
    have searches (load : Loader) : { env with load }.search target.text = env.search target.text := rfl
    simp only [follow, searches]
    cases searched : env.search target.text with
    | none => rfl
    | some path =>
      unfold enter
      by_cases held : path ∈ env.stack
      · simp only [contains_iff_mem, held]
        rfl
      · simp only [cache, same active target path named searched held]
        rfl

theorem Run.step_of_loaded {env : Env} {run : Run} {line : Line} {target : Target} {path : Path} {file : IncludedFile}
    {cache : IncludeCache} (named : line.target? = some target) (active : run.active)
    (searched : env.search target.text = some path) (new : path ∉ env.stack)
    (loaded : env.load path run.cache = (.ok file, cache)) :
    step env run line = { run.closeDisabled line.start with cache }.merge (env.record line.directive target) file := by
  have same : (run.closeDisabled line.start).cache = run.cache :=
    congrArg Intake.cache (intake_closeDisabled run line.start)
  rw [step_of_target named active]
  simp only [follow, Env.record, searched, enter, contains_iff_mem, new, ↓reduceIte, same, loaded]

/-- What a line says about a file that is found for it: a cycle when the file is being included, and else none. -/
theorem Run.diagnostics_of_found {env : Env} {run : Run} {line : Line} {target : Target} {path : Path}
    (named : line.target? = some target) (active : run.active) (searched : env.search target.text = some path) :
    ∃ reported, (step env run line).result.diagnostics = run.result.diagnostics ++ reported ∧
      ((∃ diagnostic ∈ reported, diagnostic.code = .circularInclude) ↔ path ∈ env.stack) := by
  have same : (run.closeDisabled line.start).result.diagnostics = run.result.diagnostics :=
    congrArg (fun core => core.result.diagnostics) (core_closeDisabled run line.start)
  rw [step_of_target named active, ← same]
  by_cases held : path ∈ env.stack
  · simp only [follow, searched, enter, contains_iff_mem, held]
    exact ⟨[⟨.circularInclude, _, _, .preprocessor⟩], rfl, by simp⟩
  · simp only [follow, searched, enter, contains_iff_mem, held]
    rcases env.load path (run.closeDisabled line.start).cache with ⟨error | file, cache⟩
    · exact ⟨[⟨.missingInclude, _, _, .preprocessor⟩], rfl, by simp⟩
    · exact ⟨[], (append_nil _).symm, by simp⟩

/-- A file that is being included is left out. -/
theorem Run.step_of_cycle {env : Env} {run : Run} {line : Line} {target : Target} {path : Path}
    (named : line.target? = some target) (active : run.active) (searched : env.search target.text = some path)
    (held : path ∈ env.stack) :
    (step env run line).cache = run.cache ∧ (step env run line).result.files = run.result.files ∧
      (step env run line).result.macros = run.result.macros := by
  have intake := intake_closeDisabled run line.start
  have core := core_closeDisabled run line.start
  rw [step_of_target named active]
  simp only [follow, searched, enter, contains_iff_mem, held]
  exact ⟨congrArg Intake.cache intake, congrArg Intake.files intake, congrArg (fun core => core.result.macros) core⟩

/-- A run over one text, and the lines that it still has to take in. -/
structure Activation where
  file : Option Path
  isDocument : Bool
  text : List Char
  run : Run
  rest : List Line

/-- A run that has met an include and waits for its file. -/
structure Waiting where
  activation : Activation
  inclusion : Inclusion
  path : Path

/-- The runs that are under way, of which all but one wait. -/
structure Nesting where
  /-- The files that are being included, innermost first. -/
  stack : List Path
  current : Activation
  waiting : List Waiting

namespace Nesting

variable (setting : Setting)

/-- The state before the first line of a document. -/
def start (text : List Char) (path : Option Path) (cache : IncludeCache) : Nesting :=
  let file := path.map setting.system.canonical
  ⟨file.toList, ⟨file, true, text, { result := { macros := setting.predefined }, cache }, lines text⟩, []⟩

/-- Load a file without reading its text: from the cache, or with the error that reading gives. -/
def ready : Loader := fun path cache =>
  match cache.get setting.system path setting.predefined.fingerprint with
  | (some file, cache) => (.ok file, cache)
  | (none, cache) =>
    match setting.system.read path with
    | .error error => (.error error, cache)
    | .ok _ => (.error .missing, cache)

/-- What the current run works with, for a given way to load files. -/
def env (nesting : Nesting) (load : Loader) : Env :=
  ⟨setting.system, setting.resolver, nesting.current.file, nesting.current.isDocument, nesting.stack, load⟩

/-- The file that an active include finds, whether it is being included already or not. -/
def found? (nesting : Nesting) (line : Line) : Option (Target × Path) :=
  if nesting.current.run.active then
    line.target?.bind fun target =>
      (setting.search nesting.current.file target.text).map fun path => (target, path)
  else none

/-- The text of a file that has to be read now: it is not being included, and the cache does not have it. -/
def unread? (nesting : Nesting) (path : Path) : Option String :=
  if nesting.stack.contains path then none
  else
    match (nesting.current.run.cache.get setting.system path setting.predefined.fingerprint).1 with
    | some _ => none
    | none => (setting.system.read path).toOption

/-- Begin a run over an included file. -/
def enter (nesting : Nesting) (line : Line) (rest : List Line) (target : Target) (path : Path) (text : String) :
    Nesting :=
  let run := nesting.current.run
  let inclusion := (nesting.env setting (ready setting)).record line.directive target
  { stack := path :: nesting.stack
    current :=
      { file := some path
        isDocument := false
        text := text.toList
        run :=
          { result := { macros := setting.predefined }
            cache := (run.cache.get setting.system path setting.predefined.fingerprint).2 }
        rest := lines text.toList }
    waiting :=
      ⟨{ nesting.current with run := run.closeDisabled line.start, rest }, inclusion, path⟩ :: nesting.waiting }

/-- Take in a line with some way to load files. -/
def pass (load : Loader) (nesting : Nesting) (line : Line) (rest : List Line) : Nesting :=
  { nesting with
    current := { nesting.current with
      run := Run.step (nesting.env setting load) nesting.current.run line
      rest } }

/-- End the current run and give its file to the one that waits for it. -/
def leave (nesting : Nesting) (caller : Waiting) (waiting : List Waiting) : Nesting :=
  let ended := nesting.current.run.finish (Text.byteLength nesting.current.text)
  let file := setting.fileOf caller.path nesting.current.text ended.1
  let cache := if ended.1.sawCycle then ended.2 else ended.2.insert file
  let before := caller.activation.run
  { stack := nesting.stack.tail
    current := { caller.activation with run := { before with cache }.merge caller.inclusion file }
    waiting }

/-- The next state; nothing follows on the end of the document. -/
def next? (nesting : Nesting) : Option Nesting :=
  match nesting.current.rest with
  | line :: rest =>
    match nesting.found? setting line with
    | some (target, path) =>
      match nesting.unread? setting path with
      | some text => some (nesting.enter setting line rest target path text)
      | none => some (pass setting (ready setting) nesting line rest)
    | none => some (pass setting (ready setting) nesting line rest)
  | [] =>
    match nesting.waiting with
    | caller :: waiting => some (nesting.leave setting caller waiting)
    | [] => none

/-- What the current run gives when its text ends here. -/
def result (nesting : Nesting) : Preprocessed × IncludeCache :=
  nesting.current.run.finish (Text.byteLength nesting.current.text)

/-- Some steps lead from one state to another. -/
def Leads : Nesting → Nesting → Prop := ReflTransGen fun nesting after => nesting.next? setting = some after

/-! ## The stack -/

variable {setting}

/-- The files of the runs that are under way, innermost first. -/
def files (nesting : Nesting) : List (Option Path) :=
  nesting.current.file :: nesting.waiting.map fun waiting => waiting.activation.file

variable (setting) in
/-- The stack holds the files of all runs that are under way. None of them is there twice, and all of them but the
document are files that can be found. -/
structure Orderly (document : Option Path) (inner : List Path) (nesting : Nesting) : Prop where
  files : nesting.files = inner.map some ++ [document]
  stack : nesting.stack = inner ++ document.toList
  once : nesting.stack.Nodup
  exist : ∀ path ∈ inner, ∃ entry ∈ setting.system.files, FileSystem.pathOf entry.1 = path

section Stack

variable {document : Option Path} {inner : List Path} {nesting after : Nesting}

theorem found?_eq_some {line : Line} {target : Target} {path : Path} :
    nesting.found? setting line = some (target, path) ↔ nesting.current.run.active ∧
      line.target? = some target ∧ setting.search nesting.current.file target.text = some path := by
  unfold found?
  split
  · simp only [Option.bind_eq_some_iff, Option.map_eq_some_iff]
    grind
  · simp_all

theorem unread?_eq_some {path : Path} {text : String} :
    nesting.unread? setting path = some text ↔ path ∉ nesting.stack ∧
      (nesting.current.run.cache.get setting.system path setting.predefined.fingerprint).1 = none ∧
      setting.system.read path = .ok text := by
  unfold unread?
  split
  · simp_all
  · split
    · simp_all
    · cases setting.system.read path <;> simp_all [Except.toOption]

variable (setting) in
theorem orderly_start (text : List Char) (path : Option Path) (cache : IncludeCache) :
    Orderly setting (path.map setting.system.canonical) [] (start setting text path cache) where
  files := rfl
  stack := rfl
  once := by
    cases path <;> simp [start]
  exist := by simp

namespace Orderly

variable (orderly : Orderly setting document inner nesting)

include orderly

theorem length_inner : inner.length = nesting.waiting.length := by
  have lengths := congrArg List.length orderly.files
  simp only [Nesting.files, length_cons, length_map, length_append, length_nil] at lengths
  omega

/-- There are no more runs inside one another than there are files, the document apart. -/
theorem waiting_le : nesting.waiting.length ≤ setting.system.files.length := by
  have once : inner.Nodup := (orderly.stack ▸ orderly.once).of_append_left
  have within : inner ⊆ setting.system.files.map fun entry => FileSystem.pathOf entry.1 := by
    intro path found
    obtain ⟨entry, member, same⟩ := orderly.exist path found
    exact mem_map.mpr ⟨entry, member, same⟩
  have few := (once.subperm within).length_le
  rwa [length_map, orderly.length_inner] at few

theorem pass (load : Loader) (line : Line) (rest : List Line) :
    Orderly setting document inner (pass setting load nesting line rest) :=
  ⟨orderly.files, orderly.stack, orderly.once, orderly.exist⟩

theorem enter {line : Line} (rest : List Line) {target : Target} {path : Path} {text : String}
    (found : nesting.found? setting line = some (target, path))
    (unread : nesting.unread? setting path = some text) :
    Orderly setting document (path :: inner) (nesting.enter setting line rest target path text) where
  files := congrArg (some path :: ·) orderly.files
  stack := congrArg (path :: ·) orderly.stack
  once := nodup_cons.mpr ⟨(unread?_eq_some.mp unread).1, orderly.once⟩
  exist := by
    have resolved := (found?_eq_some.mp found).2.2
    exact forall_mem_cons.mpr ⟨FileSystem.exists_of_resolve? resolved, orderly.exist⟩

theorem leave {caller : Waiting} {waiting : List Waiting} (waits : nesting.waiting = caller :: waiting) :
    ∃ outer, Orderly setting document outer (nesting.leave setting caller waiting) := by
  cases inner with
  | nil =>
    have length := orderly.length_inner
    rw [waits] at length
    cases length
  | cons path outer =>
    refine ⟨outer, ?_, ?_, ?_, fun other found => orderly.exist other (mem_cons_of_mem path found)⟩
    · have files := orderly.files
      rw [Nesting.files, waits] at files
      exact (List.cons.inj files).2
    · exact congrArg List.tail orderly.stack
    · exact orderly.once.tail

theorem next (step : nesting.next? setting = some after) : ∃ inner, Orderly setting document inner after := by
  unfold next? at step
  split at step
  · split at step
    · next found =>
      split at step
      · next unread =>
        cases step
        exact ⟨_, orderly.enter _ found unread⟩
      · cases step
        exact ⟨inner, orderly.pass _ _ _⟩
    · cases step
      exact ⟨inner, orderly.pass _ _ _⟩
  · split at step
    · next waits =>
      cases step
      exact orderly.leave waits
    · cases step

end Orderly

theorem Leads.orderly (leads : Leads setting nesting after) (orderly : Orderly setting document inner nesting) :
    ∃ inner, Orderly setting document inner after := by
  induction leads with
  | refl => exact ⟨inner, orderly⟩
  | tail _ step ih =>
    obtain ⟨inner, orderly⟩ := ih
    exact orderly.next step

end Stack

/-! ## Every run ends -/

/-- How the current run loads files while nested runs are computed at once. -/
def loader (setting : Setting) (nesting : Nesting) : Loader :=
  loadWithin setting (setting.system.files.length + 1 - nesting.waiting.length) nesting.stack

/-- The state behind the current text. -/
def atEnd (setting : Setting) (nesting : Nesting) : Nesting :=
  { nesting with
    current := { nesting.current with
      run := nesting.current.rest.foldl (Run.step (nesting.env setting (nesting.loader setting))) nesting.current.run
      rest := [] } }

section Ends

variable {document : Option Path} {inner : List Path} {nesting : Nesting} {line : Line} {rest : List Line}

/-- Without a text to be read, a file is loaded at once. -/
theorem ready_eq {path : Path} {depth : Nat} (new : path ∉ nesting.stack)
    (nothing : nesting.unread? setting path = none) : ready setting path nesting.current.run.cache =
      loadWithin setting (depth + 1) nesting.stack path nesting.current.run.cache := by
  have missed (text : String) (read : setting.system.read path = .ok text) :
      (nesting.current.run.cache.get setting.system path setting.predefined.fingerprint).1 ≠ none :=
    fun got => absurd (unread?_eq_some.mpr ⟨new, got, read⟩) (by simp [nothing])
  rw [ready, Setting.loadWithin_succ]
  generalize nesting.current.run.cache.get setting.system path setting.predefined.fingerprint = asked at missed ⊢
  obtain ⟨_ | file, cache⟩ := asked
  · cases read : setting.system.read path with
    | ok text => exact absurd rfl (missed text read)
    | error error => rfl
  · rfl

/-- Where no further run is needed, a line is passed over as if all files could be loaded. -/
theorem pass_ready (orderly : Orderly setting document inner nesting)
    (nothing : ∀ target path, nesting.found? setting line = some (target, path) →
      nesting.unread? setting path = none) :
    pass setting (ready setting) nesting line rest = pass setting (nesting.loader setting) nesting line rest := by
  have few := orderly.waiting_le
  obtain ⟨depth, deep⟩ : ∃ depth, setting.system.files.length + 1 - nesting.waiting.length = depth + 1 :=
    ⟨setting.system.files.length - nesting.waiting.length, by omega⟩
  have same : Run.step (nesting.env setting (ready setting)) nesting.current.run line =
      Run.step (nesting.env setting (nesting.loader setting)) nesting.current.run line := by
    refine @Run.step_of_load_eq (nesting.env setting (ready setting)) (ready setting) (nesting.loader setting) _ _ ?_
    intro active target path named searched new
    have found := found?_eq_some.mpr ⟨active, named, searched⟩
    rw [loader, deep]
    exact ready_eq new (nothing target path found)
  unfold pass
  rw [same]

/-- The run over an included file, brought to its end, is the run that loading the file at once makes. -/
theorem result_atEnd_enter (target : Target) (path : Path) (text : String) :
    ((nesting.enter setting line rest target path text).atEnd setting).result =
      Run.all (setting.inside (setting.system.files.length - nesting.waiting.length) nesting.stack path)
        setting.predefined text.toList
        (nesting.current.run.cache.get setting.system path setting.predefined.fingerprint).2 := by
  have less : setting.system.files.length + 1 - (nesting.waiting.length + 1) =
      setting.system.files.length - nesting.waiting.length := Nat.add_sub_add_right ..
  have loads : (nesting.enter setting line rest target path text).loader setting =
      loadWithin setting (setting.system.files.length - nesting.waiting.length) (path :: nesting.stack) :=
    congrArg (fun depth => loadWithin setting depth (path :: nesting.stack)) less
  unfold result atEnd
  rw [loads]
  rfl

section

variable (orderly : Orderly setting document inner nesting)

include orderly

/-- What a run is given for an include is what loading its file at once gives. -/
theorem leave_atEnd {target : Target} {path : Path} {text : String}
    (found : nesting.found? setting line = some (target, path)) (unread : nesting.unread? setting path = some text)
    {caller : Waiting} {waiting : List Waiting}
    (waits : (nesting.enter setting line rest target path text).waiting = caller :: waiting) :
    ((nesting.enter setting line rest target path text).atEnd setting).leave setting caller waiting =
      pass setting (nesting.loader setting) nesting line rest := by
  obtain ⟨active, named, searched⟩ := found?_eq_some.mp found
  obtain ⟨new, missed, read⟩ := unread?_eq_some.mp unread
  obtain ⟨rfl, rfl⟩ := List.cons.inj waits
  have few := orderly.waiting_le
  have deep : setting.system.files.length + 1 - nesting.waiting.length =
      setting.system.files.length - nesting.waiting.length + 1 := by omega
  have loaded := @Setting.loadWithin_succ setting (setting.system.files.length - nesting.waiting.length)
    nesting.stack path nesting.current.run.cache
  simp only [missed, read] at loaded
  rw [← deep, ← result_atEnd_enter target path text] at loaded
  have stepped := @Run.step_of_loaded (nesting.env setting (nesting.loader setting)) _ line target path _ _ named active
    searched new loaded
  unfold pass
  rw [stepped]
  rfl

/-- A line is passed over as if all files could be loaded, provided that every run further inside comes to its end. -/
theorem leads_pass (left : nesting.current.rest = line :: rest)
    (ends : ∀ {inner after}, after.waiting.length = nesting.waiting.length + 1 →
      Orderly setting document inner after → Leads setting after (after.atEnd setting)) :
    Leads setting nesting (pass setting (nesting.loader setting) nesting line rest) := by
  cases found : nesting.found? setting line with
  | none =>
    refine .single ?_
    rw [← pass_ready orderly fun target path some => by simp [found] at some]
    simp only [next?, left, found]
  | some pair =>
    obtain ⟨target, path⟩ := pair
    cases unread : nesting.unread? setting path with
    | none =>
      refine .single ?_
      rw [← pass_ready orderly fun other path some => by simp_all]
      simp only [next?, left, found, unread]
    | some text =>
      have enters : nesting.next? setting = some (nesting.enter setting line rest target path text) := by
        simp only [next?, left, found, unread]
      refine .head enters (.tail (ends rfl (orderly.enter rest found unread)) ?_)
      rw [← leave_atEnd orderly found unread rfl]
      rfl

theorem leads_atEnd_of
    (ends : ∀ {inner after}, after.waiting.length = nesting.waiting.length + 1 →
      Orderly setting document inner after → Leads setting after (after.atEnd setting)) :
    Leads setting nesting (nesting.atEnd setting) := by
  induction left : nesting.current.rest generalizing nesting with
  | nil =>
    have there : nesting.atEnd setting = nesting := by
      obtain ⟨stack, ⟨file, isDocument, text, run, rest⟩, waiting⟩ := nesting
      obtain rfl : rest = [] := left
      rfl
    rw [there]
    exact .refl
  | cons line rest ih =>
    have same : (pass setting (nesting.loader setting) nesting line rest).atEnd setting = nesting.atEnd setting := by
      obtain ⟨stack, ⟨file, isDocument, text, run, lines⟩, waiting⟩ := nesting
      obtain rfl : lines = line :: rest := left
      rfl
    rw [← same]
    exact (leads_pass orderly left ends).trans (ih (orderly.pass _ line rest) ends rfl)

/-- Whatever is being included, the current run comes to its end. The induction is on the number of files that are not
being included yet. -/
theorem Orderly.leads_atEnd : Leads setting nesting (nesting.atEnd setting) := by
  obtain ⟨unused, room⟩ := Nat.exists_eq_add_of_le orderly.waiting_le
  induction unused generalizing inner nesting with
  | zero =>
    refine leads_atEnd_of orderly fun deeper further => ?_
    have few := further.waiting_le
    omega
  | succ _ ih => exact leads_atEnd_of orderly fun deeper further => ih further (by omega)

end

/-- A state with nothing behind it is the last one of all. -/
theorem leads_last {start last : Nesting} (leads : Leads setting start last) (ended : last.next? setting = none)
    (reached : Leads setting start nesting) : Leads setting nesting last := by
  have unique : Relator.RightUnique fun nesting after : Nesting => nesting.next? setting = some after := by
    intro before one other first second
    exact Option.mem_unique first second
  rcases ReflTransGen.total_of_right_unique unique reached leads with forth | back
  · exact forth
  · rcases ReflTransGen.cases_head back with rfl | ⟨after, step, _⟩
    · exact .refl
    · exact absurd (ended.symm.trans step) (by simp)

end Ends

/-! ## Cycles -/

/-- The two states before and after a line that was taken in, with all files that it asked for. -/
structure TakesIn (setting : Setting) (line : Line) (rest : List Line) (nesting after : Nesting) : Prop where
  leads : Leads setting nesting after
  stack : after.stack = nesting.stack
  waiting : after.waiting = nesting.waiting
  file : after.current.file = nesting.current.file
  rest : after.current.rest = rest
  /-- A cycle is reported exactly for a file that is on the stack. -/
  cycle : ∀ target path, nesting.found? setting line = some (target, path) →
    ∃ reported, after.current.run.result.diagnostics = nesting.current.run.result.diagnostics ++ reported ∧
      ((∃ diagnostic ∈ reported, diagnostic.code = .circularInclude) ↔ path ∈ nesting.stack)
  /-- A file that is on the stack is left out at once. -/
  skipped : ∀ target path, nesting.found? setting line = some (target, path) → path ∈ nesting.stack →
    nesting.next? setting = some after ∧ after.current.run.cache = nesting.current.run.cache ∧
      after.current.run.result.files = nesting.current.run.result.files ∧
      after.current.run.result.macros = nesting.current.run.result.macros

section TakenIn

variable {setting : Setting} {document : Option Path} {inner : List Path} {nesting : Nesting} {line : Line}
  {rest : List Line}

theorem Orderly.takesIn (orderly : Orderly setting document inner nesting)
    (left : nesting.current.rest = line :: rest) :
    TakesIn setting line rest nesting (Nesting.pass setting (nesting.loader setting) nesting line rest) where
  leads := Nesting.leads_pass orderly left fun _ further => further.leads_atEnd
  stack := rfl
  waiting := rfl
  file := rfl
  rest := rfl
  cycle target path found := by
    obtain ⟨active, named, searched⟩ := found?_eq_some.mp found
    exact @Run.diagnostics_of_found (nesting.env setting (nesting.loader setting)) _ _ _ _ named active searched
  skipped target path found held := by
    obtain ⟨active, named, searched⟩ := found?_eq_some.mp found
    have nothing : nesting.unread? setting path = none := by
      cases unread : nesting.unread? setting path with
      | none => rfl
      | some text => exact absurd held (unread?_eq_some.mp unread).1
    refine ⟨?_, @Run.step_of_cycle (nesting.env setting (nesting.loader setting)) _ _ _ _ named active searched held⟩
    rw [← pass_ready orderly fun other path some => by simp_all]
    simp only [next?, left, found, nothing]

end TakenIn

/-- What holds in every state of a machine that works on some files. -/
structure Disciplined (setting : Setting) (nesting : Nesting) : Prop where
  chain : nesting.stack = nesting.files.reduceOption
  once : nesting.stack.Nodup
  few : nesting.stack.length ≤ setting.system.files.length + 1
  shallow : nesting.waiting.length ≤ setting.system.files.length
  returns : ∀ line rest, nesting.current.rest = line :: rest → ∃ after, TakesIn setting line rest nesting after

theorem Orderly.disciplined {setting : Setting} {document : Option Path} {inner : List Path} {nesting : Nesting}
    (orderly : Orderly setting document inner nesting) : Disciplined setting nesting where
  chain := by
    rw [orderly.files, orderly.stack]
    change _ = List.filterMap id _
    cases document <;> simp
  once := orderly.once
  few := by
    have shallow := orderly.waiting_le
    have document : document.toList.length ≤ 1 := by cases document <;> simp
    rw [orderly.stack, length_append, orderly.length_inner]
    omega
  shallow := orderly.waiting_le
  returns _ _ left := ⟨_, orderly.takesIn left⟩

end Nesting

/-- Preprocessing ends on any files, with any includes among them and anything in the cache, and gives what the nested
runs give. On the way no file is being included twice, every include ends with the files being included that were before
it, and a cycle is reported exactly where the file that is found is being included. -/
theorem preprocess_nests (setting : Setting) (text : List Char) (path : Option Path) (cache : IncludeCache) :
    (∃ last : Nesting, last.next? setting = none ∧ last.result = preprocess setting text path cache ∧
      ∀ nesting, Nesting.Leads setting (.start setting text path cache) nesting →
        Nesting.Leads setting nesting last) ∧
    ∀ nesting, Nesting.Leads setting (.start setting text path cache) nesting →
      Nesting.Disciplined setting nesting := by
  have orderly := Nesting.orderly_start setting text path cache
  refine ⟨⟨_, ?_, ?_, fun nesting => Nesting.leads_last orderly.leads_atEnd ?_⟩, fun nesting leads => ?_⟩
  · rfl
  · rfl
  · rfl
  · obtain ⟨inner, orderly⟩ := leads.orderly orderly
    exact orderly.disciplined

/-- A document that includes itself. -/
def selfIncluding : Nesting :=
  .start ⟨Call.tangledFiles, {}, ∅⟩ "#include \"x.lsl\"\n".toList (some ⟨"/x.lsl"⟩) {}

/-- The cycle is reported, and nothing is loaded. -/
theorem preprocess_nests_selfIncluding :
    ∃ after, selfIncluding.next? ⟨Call.tangledFiles, {}, ∅⟩ = some after ∧ after.stack = [⟨"/x.lsl"⟩] ∧
      after.current.run.result.files = [] ∧
      ∃ diagnostic ∈ after.current.run.result.diagnostics, diagnostic.code = .circularInclude := by
  have disciplined := (preprocess_nests ⟨Call.tangledFiles, {}, ∅⟩ _ _ _).2 selfIncluding .refl
  obtain ⟨line, left⟩ : ∃ line, selfIncluding.current.rest = [line] := length_eq_one_iff.mp (by decide +kernel)
  have found : (selfIncluding.current.rest.head?.bind (selfIncluding.found? ⟨Call.tangledFiles, {}, ∅⟩)).map Prod.snd =
      some ⟨"/x.lsl"⟩ := by decide +kernel
  have stack : selfIncluding.stack = [⟨"/x.lsl"⟩] := by decide +kernel
  rw [left] at found
  obtain ⟨⟨target, path⟩, found, rfl⟩ := Option.map_eq_some_iff.mp found
  obtain ⟨after, taken⟩ := disciplined.returns line [] left
  have held : (⟨"/x.lsl"⟩ : Path) ∈ selfIncluding.stack := by simp [stack]
  obtain ⟨next, _, files, _⟩ := taken.skipped target _ found held
  obtain ⟨reported, same, cycle⟩ := taken.cycle target _ found
  obtain ⟨diagnostic, member, isCycle⟩ := cycle.mpr held
  refine ⟨after, next, taken.stack.trans stack, files, diagnostic, ?_, isCycle⟩
  rw [same]
  exact mem_append_right _ member

end ScriptLint.Preprocess
