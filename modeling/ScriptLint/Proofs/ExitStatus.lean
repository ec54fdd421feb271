import ScriptLint.CommandLine.Run

/-!
# When a check fails

A check fails if an error is reported. Diagnostics that are disabled or suppressed are left out of a report, and of
those that remain only so many are reported as the configuration allows. So an error behind too many other diagnostics
does not make a check fail.
-/

namespace ScriptLint

open List

namespace Document

/-- What all stages found, in report order, without what is disabled or suppressed. -/
def remaining (document : Document) (disabled : List Code) : List Diagnostic :=
  document.found.filter fun diagnostic =>
    !disabled.contains diagnostic.code &&
      !document.pre.suppressions.suppresses document.lines diagnostic.code diagnostic.span.start

/-- An error is reported if its place among the remaining diagnostics is below the limit. -/
theorem hasErrors_iff {document : Document} {disabled : List Code} {limit : Nat}
    (reported : document.reported = (document.remaining disabled).take limit) :
    document.hasErrors ↔ ∃ place error,
      (document.remaining disabled)[place]? = some error ∧ error.isError ∧ place < limit := by
  rw [hasErrors, reported, any_eq_true]
  constructor
  · rintro ⟨error, found, grave⟩
    obtain ⟨place, found⟩ := mem_iff_getElem?.mp found
    rw [getElem?_take] at found
    obtain ⟨within, found⟩ := Option.ite_none_right_eq_some.mp found
    exact ⟨place, error, found, grave, within⟩
  · rintro ⟨place, error, found, grave, within⟩
    refine ⟨error, mem_iff_getElem?.mpr ⟨place, ?_⟩, grave⟩
    rw [getElem?_take, if_pos within, found]

end Document

namespace CommandLine

variable {system : FileSystem} {pipeline : Pipeline} {files : List Path}

theorem analyzeFiles_cons {path : Path} {text : String} (read : system.read path = .ok text) (cache : IncludeCache)
    (paths : List Path) :
    let document := pipeline.analyze system cache text (some path)
    analyzeFiles system pipeline cache (path :: paths) =
      (analyzeFiles system pipeline document.2 paths).map (⟨path, text.toList, document.1⟩ :: ·) := by
  rw [analyzeFiles, read]

theorem analyzeFiles_ok (readable : ∀ path ∈ files, ∃ text, system.read path = .ok text) (cache : IncludeCache) :
    ∃ checked, analyzeFiles system pipeline cache files = .ok checked ∧ checked.map Checked.path = files ∧
      ∀ file ∈ checked, file.document.reported =
        (file.document.remaining pipeline.disabled).take pipeline.config.maxDiagnostics := by
  induction files generalizing cache with
  | nil => exact ⟨[], rfl, rfl, forall_mem_nil _⟩
  | cons path files ih =>
    obtain ⟨⟨text, read⟩, later⟩ := forall_mem_cons.mp readable
    obtain ⟨checked, analyzed, paths, reported⟩ := ih later (pipeline.analyze system cache text (some path)).2
    refine ⟨_, (analyzeFiles_cons read cache files).trans (congrArg (Except.map _) analyzed), ?_, ?_⟩
    · rw [map_cons, paths]
    · exact forall_mem_cons.mpr ⟨rfl, reported⟩

theorem execute_ok {options : Options} {command : Command} {checked : List Checked}
    (valid : pipelineFor system options = .ok pipeline)
    (analyzed : analyzeFiles system pipeline {} command.files = .ok checked) :
    execute system command options =
      .ok { exitCode := command.exitCode checked, output := command.report checked } := by
  rw [execute, valid]
  exact congrArg (Except.map _) analyzed

/-- A check of files that can be read fails exactly if in one of them an error remains and fewer diagnostics remain in
front of it than are reported. -/
theorem execute_check {options : Options} (valid : pipelineFor system options = .ok pipeline)
    (readable : ∀ path ∈ files, ∃ text, system.read path = .ok text) (format : Format) :
    ∃ checked outcome, analyzeFiles system pipeline {} files = .ok checked ∧ checked.map Checked.path = files ∧
      execute system (.check files format) options = .ok outcome ∧ outcome.exitCode ≤ 1 ∧
      (outcome.exitCode = 1 ↔ ∃ file ∈ checked, ∃ (place : Nat) (error : Diagnostic),
        (file.document.remaining pipeline.disabled)[place]? = some error ∧ error.isError = true ∧
          place < pipeline.config.maxDiagnostics) := by
  obtain ⟨checked, analyzed, paths, reported⟩ := @analyzeFiles_ok system pipeline files readable {}
  refine ⟨checked, _, analyzed, paths, execute_ok valid analyzed, ?_, ?_⟩
  · dsimp only [Command.exitCode]
    split <;> omega
  · have fails : Command.exitCode (.check files format) checked = 1 ↔
        ∃ file ∈ checked, file.document.hasErrors = true := by
      rw [Command.exitCode, ← any_eq_true]
      split <;> simp_all
    rw [fails]
    refine exists_congr fun file => and_congr_right fun found => ?_
    exact Document.hasErrors_iff (reported file found)

/-- A text with a warning in front of an error. -/
def cappedText : String := "#warning a\n#error b\n"

/-- A file with that text, and a configuration that allows one diagnostic. -/
def cappedSystem : FileSystem :=
  ((default : FileSystem).write ["a.lsl"] ⟨some cappedText, 0⟩).write ["c.toml"] ⟨some "[diagnostics]\nmax = 1\n", 0⟩

def cappedOptions : Options := { config := some ⟨"c.toml"⟩ }

def cappedPipeline : Pipeline := ⟨{ maxDiagnostics := 1 }, .bundled, ∅, [], ∅⟩

def cappedDocument : Document := (cappedPipeline.analyze cappedSystem {} cappedText (some ⟨"a.lsl"⟩)).1

theorem pipelineFor_capped : pipelineFor cappedSystem cappedOptions = .ok cappedPipeline := by
  have config : (configFor cappedSystem cappedOptions).toOption = some { maxDiagnostics := 1 } := by decide +kernel
  cases read : configFor cappedSystem cappedOptions with
  | error =>
    rw [read] at config
    cases config
  | ok =>
    rw [read] at config
    obtain rfl := Option.some.inj config
    rw [pipelineFor, read]
    rfl

theorem found_capped : cappedDocument.found = [⟨.warningDirective, "#warning a", ⟨0, 10⟩, .preprocessor⟩,
    ⟨.errorDirective, "#error b", ⟨11, 19⟩, .preprocessor⟩] := by
  have diagnostics : cappedDocument.pre.diagnostics ++
      (tokenize cappedText.toList cappedDocument.pre.disabled).diagnostics ++ cappedDocument.analysis.diagnostics =
        [⟨.warningDirective, "#warning a", ⟨0, 10⟩, .preprocessor⟩,
          ⟨.errorDirective, "#error b", ⟨11, 19⟩, .preprocessor⟩] := by
    decide +kernel
  exact (congrArg Diagnostic.sort diagnostics).trans (mergeSort_of_pairwise (by decide))

theorem execute_check_capped : ∃ outcome,
    execute cappedSystem (.check [⟨"a.lsl"⟩, ⟨"c.toml"⟩] .json) cappedOptions = .ok outcome ∧ outcome.exitCode ≤ 1 := by
  have readable : ∀ path ∈ [⟨"a.lsl"⟩, ⟨"c.toml"⟩], ∃ text, cappedSystem.read path = .ok text :=
    forall_mem_cons.mpr ⟨⟨_, rfl⟩, forall_mem_singleton.mpr ⟨_, rfl⟩⟩
  obtain ⟨_, outcome, _, _, executed, status, _⟩ := execute_check pipelineFor_capped readable .json
  exact ⟨outcome, executed, status⟩

/-- A check passes although an error remains. -/
theorem check_capped : ∃ pipeline file outcome, pipelineFor cappedSystem cappedOptions = .ok pipeline ∧
    analyzeFiles cappedSystem pipeline {} [⟨"a.lsl"⟩] = .ok [file] ∧
    execute cappedSystem (.check [⟨"a.lsl"⟩] .text) cappedOptions = .ok outcome ∧ outcome.exitCode = 0 ∧
    ∃ error ∈ file.document.remaining pipeline.disabled, error.isError = true := by
  have analyzed : analyzeFiles cappedSystem cappedPipeline {} [⟨"a.lsl"⟩] =
      .ok [⟨⟨"a.lsl"⟩, cappedText.toList, cappedDocument⟩] := by
    rw [analyzeFiles_cons (show cappedSystem.read ⟨"a.lsl"⟩ = .ok cappedText by rfl), analyzeFiles]
    rfl
  refine ⟨cappedPipeline, _, _, pipelineFor_capped, analyzed, execute_ok pipelineFor_capped analyzed, ?_, ?_⟩
  · have passes : cappedDocument.hasErrors = false := by
      change (Document.select cappedDocument.found _ _ _ _).any _ = false
      rw [found_capped]
      decide +kernel
    simp [Command.exitCode, passes]
  · rw [← any_eq_true]
    change (List.filter _ cappedDocument.found).any _ = true
    rw [found_capped]
    decide +kernel

end CommandLine

end ScriptLint
