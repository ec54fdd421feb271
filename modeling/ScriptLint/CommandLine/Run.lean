import ScriptLint.CommandLine.Report
import ScriptLint.Config.File
import ScriptLint.Definitions.File

/-!
# Running commands

A command reads files and prints a report. Everything is read before anything is printed, so a command that fails
prints nothing.
-/

namespace ScriptLint.CommandLine

/-- Why a command could not be carried out. -/
inductive Failure where
  | config (error : Config.ReadError)
  | definitions (error : Definitions.ReadError)
  | invalid (error : Config.Invalid)
  | unreadable (path : Path)
  deriving Repr, DecidableEq

def Failure.message : Failure → String
  | config error => error.message
  | definitions error => error.message
  | invalid error => error.message
  | unreadable path => s!"Failed to read file '{path.text}'"

/-- What a run leaves behind. -/
structure Outcome where
  exitCode : Nat
  output : String := ""
  error : Option String := none
  deriving Repr, DecidableEq

/-- The configuration file that is used when none is named. -/
def localConfig : Path := ⟨"lsl.toml"⟩

/-- The configuration without the options. -/
def baseConfig (system : FileSystem) (options : Options) : Except Config.ReadError Config :=
  match options.config with
  | some path => Config.readFile system path
  | none => if system.isFile localConfig then Config.readFile system localConfig else .ok {}

/-- The configuration with the options on top. -/
def configFor (system : FileSystem) (options : Options) : Except Config.ReadError Config :=
  (baseConfig system options).map fun config =>
    let config := { config with includePaths := config.includePaths ++ options.includePaths }
    let config := options.defines.foldl Config.addDefine config
    { config with definitions := options.definitions <|> config.definitions }

def pipelineFor (system : FileSystem) (options : Options) : Except Failure Pipeline := do
  let config ← (configFor system options).mapError .config
  let definitions ← (Definitions.load system config.definitions).mapError .definitions
  (Pipeline.new config definitions).mapError .invalid

/-- Read and analyse files one after the other. They share what they include. -/
def analyzeFiles (system : FileSystem) (pipeline : Pipeline) :
    IncludeCache → List Path → Except Failure (List Checked)
  | _, [] => .ok []
  | cache, path :: paths =>
    match system.read path with
    | .error _ => .error (.unreadable path)
    | .ok text =>
      let (document, cache) := pipeline.analyze system cache text (some path)
      (analyzeFiles system pipeline cache paths).map fun files => ⟨path, text.toList, document⟩ :: files

def Command.files : Command → List Path
  | check files _ => files
  | tokens file _ | preprocess file | symbols file => [file]

def Command.report (command : Command) (files : List Checked) : String :=
  match command with
  | check _ format => checkReport files format
  | tokens _ trivia => joinLines (files.flatMap fun file => file.tokenLines trivia)
  | preprocess _ => joinLines (files.map fun file => file.preprocessRecord.render)
  | symbols _ => joinLines (files.map fun file => file.symbolsRecord.render)

/-- A check fails if an error is reported. Other commands show what they find. -/
def Command.exitCode (command : Command) (files : List Checked) : Nat :=
  match command with
  | check _ _ => if files.any fun file => file.document.hasErrors then 1 else 0
  | _ => 0

def execute (system : FileSystem) (command : Command) (options : Options) : Except Failure Outcome := do
  let pipeline ← pipelineFor system options
  let files ← analyzeFiles system pipeline {} command.files
  return { exitCode := command.exitCode files, output := command.report files }

def run (system : FileSystem) (words : List String) : Outcome :=
  match parse words with
  | .error error => { exitCode := 2, error := some error.message }
  | .ok (command, options) =>
    match execute system command options with
    | .error failure => { exitCode := 1, error := some failure.message }
    | .ok outcome => outcome

end ScriptLint.CommandLine
