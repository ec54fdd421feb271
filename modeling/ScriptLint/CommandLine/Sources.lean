import ScriptLint.CommandLine.Run

/-!
# Sources of a command

The paths that a command may read: its files, its configuration and definitions, and what the files known so far
could include. Reading them and asking again, until nothing new is named, gathers everything that a run can see.
-/

namespace ScriptLint.CommandLine

/-- The targets of all includes in a text, active or not. -/
def includeTargets (text : String) : List String :=
  (Preprocess.lines text.toList).filterMap fun line =>
    let directive := Preprocess.Directive.read line.start line.text
    if line.isDirective && directive.keyword == .inclusion then
      (Preprocess.Target.read? directive.rest).map Preprocess.Target.text
    else none

/-- The paths where the includes of a file may be found. -/
def includeCandidates (resolver : Resolver) (entry : Location × File) : List Path :=
  let directory := FileSystem.pathOf entry.1.dropLast
  (includeTargets (entry.2.content.getD "")).flatMap fun target =>
    resolver.candidates ⟨target⟩ (some directory)

/-- The paths that a command line may read, as far as the known files tell. -/
def sources (system : FileSystem) (words : List String) : List Path :=
  match parse words with
  | .error _ => []
  | .ok (command, options) =>
    let config := (configFor system options).toOption.getD {}
    options.config.getD localConfig :: config.definitions.toList ++ command.files ++
      system.files.flatMap (includeCandidates ⟨config.includePaths⟩)

end ScriptLint.CommandLine
