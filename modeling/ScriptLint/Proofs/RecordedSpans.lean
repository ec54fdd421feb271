import ScriptLint.Proofs.Arenas
import ScriptLint.Proofs.ConditionalRun
import ScriptLint.Proofs.DirectiveText
import ScriptLint.Proofs.IncludeGraph

/-!
# Recorded spans

Every definition in force behind a text was there before it, or a line of the text makes it, or an included file exports
it; and every include that is recorded stands on a line. So a span that the document has recorded is one that a line of
it gives.
-/

namespace ScriptLint

open List

variable {name : String}

theorem NameMap.get?_filter {α : Type} (test : String → α → Bool) (map : NameMap α) {value : α} :
    (map.filter test).get? name = some value ↔ map.get? name = some value ∧ test name value := by
  rw [get?_eq_some_iff, get?_eq_some_iff]
  exact mem_filter

/-- A definition that is added is the only one that can be new. -/
theorem Macro.Table.get?_define {table : Table} {added entry : Macro}
    (found : (table.define added).get? name = some entry) : table.get? name = some entry ∨ entry = added := by
  rw [define, NameMap.get?_insertNew] at found
  split at found
  · next same =>
    subst same
    cases held : table.get? added.name with
    | none =>
      rw [held] at found
      exact .inr (Option.some.inj found).symm
    | some =>
      rw [held] at found
      exact .inl found
  · exact .inl found

theorem Macro.Table.get?_defineAll {table : Table} {added : List Macro} {entry : Macro}
    (found : (table.defineAll added).get? name = some entry) : table.get? name = some entry ∨ entry ∈ added := by
  induction added generalizing table with
  | nil => exact .inl found
  | cons first _ ih =>
    rcases ih found with early | late
    · rcases get?_define early with held | rfl
      · exact .inl held
      · exact .inr mem_cons_self
    · exact .inr (mem_cons_of_mem first late)

namespace Preprocess

namespace Run

/-! ## Where definitions come from -/

theorem macros_closeDisabled (run : Run) (stop : Nat) : (run.closeDisabled stop).result.macros = run.result.macros :=
  congrArg (fun core => core.result.macros) (core_closeDisabled run stop)

/-- A definition stands in the exports of a file that was included. -/
def Exported (run : Run) (entry : Macro) : Prop :=
  ∃ file ∈ run.result.files, entry ∈ file.exports.macros.values

variable {run : Run} {env : Env} {name : String} {entry : Macro} {line : Line}

theorem macros_follow {directive : Directive} {target : Target}
    (found : (run.follow env directive target).result.macros.get? name = some entry) :
    run.result.macros.get? name = some entry ∨ (run.follow env directive target).Exported entry := by
  unfold follow at found ⊢
  cases searched : env.search target.text with
  | none =>
    simp only [searched] at found
    exact .inl found
  | some path =>
    simp only [searched] at found ⊢
    unfold enter at found ⊢
    split at found
    · exact .inl found
    · next free =>
      rw [if_neg free]
      generalize env.load path run.cache = loaded at found ⊢
      obtain ⟨error | file, cache⟩ := loaded
      · exact .inl found
      · rcases Macro.Table.get?_defineAll found with early | exported
        · exact .inl early
        · exact .inr ⟨file, mem_append_right _ mem_cons_self, exported⟩

theorem macros_define (kind : line.isDirective) (keyword : line.directive.keyword = .define)
    (found : (run.define env line.directive).result.macros.get? name = some entry) :
    run.result.macros.get? name = some entry ∨ line.macro? env.owner = some entry := by
  unfold define at found
  cases read : Macro.parseDefine line.directive.rest with
  | error =>
    simp only [read] at found
    exact .inl found
  | ok =>
    simp only [read] at found
    split at found
    · exact .inl found
    · rcases Macro.Table.get?_define found with early | rfl
      · exact .inl early
      · refine .inr ?_
        rw [Line.macro?, kind, keyword, read]
        rfl

theorem macros_perform (kind : line.isDirective)
    (found : (run.perform env line.directive).result.macros.get? name = some entry) :
    run.result.macros.get? name = some entry ∨ line.macro? env.owner = some entry ∨
      (run.perform env line.directive).Exported entry := by
  unfold perform at found ⊢
  cases keyword : line.directive.keyword with
  | define =>
    simp only [keyword] at found
    exact (macros_define kind keyword found).imp_right .inl
  | undefine =>
    simp only [keyword, undefine] at found
    split at found
    · exact .inl (NameMap.get?_filter _ _ |>.mp found).1
    · exact .inl found
  | inclusion =>
    simp only [keyword, inclusion] at found ⊢
    cases read : Target.read? line.directive.rest with
    | none =>
      simp only [read] at found
      exact .inl found
    | some =>
      simp only [read] at found ⊢
      exact (macros_follow found).imp_right .inr
  | _ =>
    simp only [keyword] at found
    exact .inl found

/-- A definition behind a line was there before it, or the line makes it, or a file exports it. -/
theorem macros_step (found : (step env run line).result.macros.get? name = some entry) :
    run.result.macros.get? name = some entry ∨ line.macro? env.owner = some entry ∨
      (step env run line).Exported entry := by
  cases kind : line.isDirective with
  | false =>
    have same : (step env run line).result.macros = run.result.macros := by
      rw [step_of_text kind, addRemark]
      split
      · split <;> rfl
      · rfl
    exact .inl (same ▸ found)
  | true =>
    have handled : (step env run line).result = (run.handled env line).result := by
      rcases @step_of_directive run env line kind with ⟨_, same⟩ | ⟨_, same⟩ <;> rw [same]
    rw [Exported, handled]
    rw [handled] at found
    rw [← macros_closeDisabled run line.start]
    unfold Run.handled at found ⊢
    rcases regroups_or_performs (run.closeDisabled line.start) (.read line.start line.text) env with
      ⟨frames, wrong, same⟩ | same
    · rw [same] at found
      cases wrong <;> exact .inl found
    · rw [same] at found ⊢
      exact macros_perform kind found

theorem files_subset_step (env : Env) (run : Run) (line : Line) :
    run.result.files ⊆ (step env run line).result.files := by
  change run.intake.files ⊆ (step env run line).intake.files
  rcases run.plain_or_target line with plain | ⟨active, target, named⟩
  · rw [intake_step run env plain]
    exact List.Subset.refl _
  · rw [step_of_target named active, ← intake_closeDisabled run line.start]
    rcases follow_cases (run.closeDisabled line.start) env line.directive target with
      ⟨_, after⟩ | ⟨path, _, ⟨_, after⟩ | ⟨_, ⟨file, _, after⟩ | ⟨error, _, after⟩⟩⟩ <;> rw [after]
    · exact List.Subset.refl _
    · exact List.Subset.refl _
    · exact subset_append_left _ _
    · exact List.Subset.refl _

theorem macros_foldl {lines : List Line} (found : (lines.foldl (step env) run).result.macros.get? name = some entry) :
    run.result.macros.get? name = some entry ∨ (∃ line ∈ lines, line.macro? env.owner = some entry) ∨
      (lines.foldl (step env) run).Exported entry := by
  induction lines using List.reverseRecOn with
  | nil => exact .inl found
  | append_singleton _ line ih =>
    rw [foldl_concat] at found ⊢
    rcases macros_step found with before | made | exported
    · rcases ih before with start | ⟨earlier, member, made⟩ | ⟨file, included, exported⟩
      · exact .inl start
      · exact .inr (.inl ⟨earlier, mem_append_left _ member, made⟩)
      · exact .inr (.inr ⟨file, files_subset_step env _ line included, exported⟩)
    · exact .inr (.inl ⟨line, mem_append_right _ mem_cons_self, made⟩)
    · exact .inr (.inr exported)

theorem macros_finish (run : Run) (length : Nat) : (run.finish length).1.macros = run.result.macros := by
  refine (macros_closeDisabled run.reportOpen length).trans ?_
  obtain ⟨_, same⟩ := run.exists_reportOpen
  rw [same]

theorem files_finish (run : Run) (length : Nat) : (run.finish length).1.files = run.result.files :=
  congrArg Intake.files (intake_finish run length)

section All

variable {env : Env} {predefined : Macro.Table} {text : List Char} {cache : IncludeCache}

/-- A definition behind a text was there before it, or a line of the text makes it, or an included file exports it. -/
theorem all_macros {name : String} {entry : Macro}
    (found : (all env predefined text cache).1.macros.get? name = some entry) :
    predefined.get? name = some entry ∨ (∃ line ∈ lines text, line.macro? env.owner = some entry) ∨
      ∃ file ∈ (all env predefined text cache).1.files, entry ∈ file.exports.macros.values := by
  rw [all, macros_finish] at found
  rw [all, files_finish]
  exact macros_foldl found

/-- An include that is recorded stands on a line of the text. -/
theorem all_inclusions : ∀ inclusion ∈ (all env predefined text cache).1.inclusions, ∃ line ∈ lines text,
    ∃ target, line.target? = some target ∧ inclusion = env.record line.directive target := by
  refine all_intake (fun intake => ∀ inclusion ∈ intake.inclusions, ∃ line ∈ lines text, ∃ target,
    line.target? = some target ∧ inclusion = env.record line.directive target) ?_ ?_
  · exact forall_mem_nil _
  · intro before line target found named _ known inclusion recorded
    rcases mem_inclusions_follow.mp recorded with earlier | rfl
    · exact known inclusion earlier
    · exact ⟨line, found, target, named, rfl⟩

end All

end Run

/-! ## Included files -/

theorem Line.file_of_macro? {line : Line} {file : Option Path} {entry : Macro} (made : line.macro? file = some entry) :
    entry.file = file := by
  rw [Line.macro?] at made
  split at made
  · split at made
    · cases made
    · obtain rfl := Option.some.inj made
      rfl
  · cases made

end Preprocess

/-- Every definition that a file exports is noted for an included file. -/
def IncludedFile.Foreign (file : IncludedFile) : Prop :=
  ∀ entry ∈ file.exports.macros.values, entry.file ≠ none

namespace Preprocess

/-- With a cache of such files, only such files are loaded and kept. -/
def Loader.Guarded (load : Loader) : Prop :=
  ∀ path (cache : IncludeCache), cache.Keeps IncludedFile.Foreign →
    (load path cache).2.Keeps IncludedFile.Foreign ∧ ∀ file, (load path cache).1 = .ok file → file.Foreign

theorem Run.all_foreign {env : Env} {predefined : Macro.Table} {text : List Char} {cache : IncludeCache}
    (keeps : cache.Keeps IncludedFile.Foreign) (guarded : Loader.Guarded env.load) :
    (all env predefined text cache).2.Keeps IncludedFile.Foreign ∧
      ∀ file ∈ (all env predefined text cache).1.files, file.Foreign := by
  refine all_intake (fun intake => intake.cache.Keeps IncludedFile.Foreign ∧ ∀ file ∈ intake.files, file.Foreign)
    ⟨keeps, forall_mem_nil _⟩ ?_
  intro before line target _ _ _ known
  rcases follow_cases before env line.directive target with
    ⟨_, after⟩ | ⟨path, _, ⟨_, after⟩ | ⟨_, ⟨file, loaded, after⟩ | ⟨error, _, after⟩⟩⟩ <;> rw [after]
  · exact known
  · exact known
  · obtain ⟨kept, foreign⟩ := guarded path before.cache known.1
    exact ⟨kept, forall_mem_append.mpr ⟨known.2, forall_mem_singleton.mpr (foreign file loaded)⟩⟩
  · exact ⟨(guarded path before.cache known.1).1, known.2⟩

/-- A file exports what its run defines and is not defined beforehand. -/
theorem Setting.foreign_fileOf {setting : Setting} (path : Path) (text : List Char) {result : Preprocessed}
    (sources : ∀ name entry, result.macros.get? name = some entry →
      setting.predefined.get? name = some entry ∨ entry.file ≠ none) : (setting.fileOf path text result).Foreign := by
  intro _ exported
  obtain ⟨⟨name, entry⟩, held, rfl⟩ := mem_map.mp exported
  rw [← NameMap.get?_eq_some_iff] at held
  obtain ⟨found, new⟩ := (NameMap.get?_filter _ _).mp held
  rcases sources name entry found with before | noted
  · rw [NameMap.contains, before] at new
    cases new
  · exact noted

/-- Loading notes every definition for the file that makes it. -/
theorem guarded_loadWithin (setting : Setting) (depth : Nat) (stack : List Path) :
    Loader.Guarded (loadWithin setting depth stack) := by
  induction depth generalizing stack with
  | zero => exact fun path cache keeps => ⟨keeps, fun file none => by cases none⟩
  | succ depth ih =>
    intro path cache keeps
    have asked := keeps.get setting.system path setting.predefined.fingerprint
    cases got : (cache.get setting.system path setting.predefined.fingerprint).1 with
    | some file =>
      simp only [Setting.loadWithin_succ, got]
      refine ⟨asked, fun other same => ?_⟩
      obtain rfl := Except.ok.inj same
      exact keeps file (IncludeCache.of_get_eq_some got).1
    | none =>
      cases read : setting.system.read path with
      | error =>
        simp only [Setting.loadWithin_succ, got, read]
        exact ⟨asked, fun other same => by cases same⟩
      | ok text =>
        have ran := @Run.all_foreign (setting.inside depth stack path) setting.predefined text.toList _ asked
          (ih (path :: stack))
        have foreign := Setting.foreign_fileOf path text.toList fun name entry found => by
          rcases @Run.all_macros (setting.inside depth stack path) _ _ _ _ _ found with
            before | ⟨line, _, made⟩ | ⟨file, included, exported⟩
          · exact .inl before
          · rw [Line.file_of_macro? made]
            exact .inr (Option.some_ne_none path)
          · exact .inr (ran.2 file included entry exported)
        simp only [Setting.loadWithin_succ, got, read]
        refine ⟨?_, fun other same => ?_⟩
        · split
          · exact ran.1
          · exact ran.1.insert foreign
        · obtain rfl := Except.ok.inj same
          exact foreign

/-- What a document records is given by its lines: a definition that is neither there beforehand nor noted for a file,
and an include with a file or without. Its span is the name in the line, or the target, as far as the line is read as it
is written. The cache stays one that notes definitions for files. -/
theorem preprocess_spans (setting : Setting) (text : List Char) (path : Option Path) {cache : IncludeCache}
    (keeps : cache.Keeps IncludedFile.Foreign) :
    let result := (preprocess setting text path cache).1
    (∀ name entry, result.macros.get? name = some entry → entry.file = none →
      setting.predefined.get? name ≠ some entry → ∃ line ∈ lines text, line.macro? none = some entry ∧
        line.Names text entry.span entry.name) ∧
    (∀ inclusion ∈ result.includes ++ result.missing, ∃ line ∈ lines text,
      line.target?.map (·.text) = some inclusion.target ∧ line.Names text inclusion.span inclusion.target) ∧
    (preprocess setting text path cache).2.Keeps IncludedFile.Foreign := by
  have guarded := guarded_loadWithin setting (setting.system.files.length + 1) (setting.outside path).stack
  obtain ⟨kept, foreign⟩ := @Run.all_foreign (setting.outside path) setting.predefined text cache keeps guarded
  refine ⟨fun name entry found own new => ?_, fun inclusion recorded => ?_, kept⟩
  · rcases @Run.all_macros (setting.outside path) _ _ _ _ _ found with
      before | ⟨line, member, made⟩ | ⟨file, included, exported⟩
    · exact absurd before new
    · exact ⟨line, member, made, Line.names_macro member made⟩
    · exact absurd own (foreign file included entry exported)
  · obtain ⟨line, member, target, named, rfl⟩ := @Run.all_inclusions (setting.outside path) _ _ _ inclusion recorded
    exact ⟨line, member, by rw [named]; rfl, Line.names_target member named _⟩

def spanSample : List Char := "# define A(x) \\\n x /* y */\n".toList

theorem preprocess_spans_spanSample :
    (preprocess .bare spanSample none {}).1.macros.get? "A" =
      some ⟨"A", .function ["x"] false "x", ⟨9, 10⟩, none⟩ ∧
    ∃ line ∈ lines spanSample, line.macro? none = some ⟨"A", .function ["x"] false "x", ⟨9, 10⟩, none⟩ ∧
      line.Names spanSample ⟨9, 10⟩ "A" := by
  have found : (preprocess .bare spanSample none {}).1.macros.get? "A" =
      some ⟨"A", .function ["x"] false "x", ⟨9, 10⟩, none⟩ := by decide +kernel
  exact ⟨found, (preprocess_spans .bare spanSample none (IncludeCache.keeps_empty _)).1 "A" _ found rfl (by decide)⟩

/-- A comment before a name or a target is left out of the count, so that the span falls into it. -/
theorem span_behind_comment :
    let named := "#define /* c */ X 1\n".toList
    let targeted := "#include /* c */ \"a.lsl\"\n".toList
    ((preprocess .bare named none {}).1.macros.get? "X" = some ⟨"X", .object "1", ⟨10, 11⟩, none⟩ ∧
      Text.slice? named 10 11 = some " ".toList) ∧
    (preprocess .bare targeted none {}).1.missing = [⟨"a.lsl", ⟨12, 17⟩, false, none⟩] ∧
      Text.slice? targeted 12 17 = some "c */ ".toList := by
  decide +kernel

end Preprocess

end ScriptLint
