import ScriptLint.Config
import ScriptLint.Data.Toml.Reader
import ScriptLint.Data.Tree
import ScriptLint.FileSystem

/-!
# Configuration files

A configuration is written in TOML. Everything can be left out, and nothing unknown may stand in it.
-/

namespace ScriptLint.Config

/-- Why a configuration could not be read. -/
inductive ReadError where
  | invalid
  | invalidFile (path : Path)
  | unreadable (path : Path)
  deriving Repr, DecidableEq

def ReadError.message : ReadError → String
  | invalid => "invalid analyzer configuration"
  | invalidFile path => s!"in config file {path.text}"
  | unreadable path => s!"failed to read config {path.text}"

/-- The part of a configuration about diagnostics: a table, or an array of its fields in order. -/
def withDiagnostics? (config : Config) (value : Toml) : Option Config := do
  let fields ← value.record? ["disabled", "max"]
  let disabled ← Tree.fieldD fields "disabled" config.disabled Toml.texts?
  let maxDiagnostics ← Tree.fieldD fields "max" config.maxDiagnostics Toml.count?
  return { config with disabled, maxDiagnostics }

def ofToml? (value : Toml) : Option Config := do
  let fields ← value.fields? ["include_paths", "defines", "definitions", "diagnostics"]
  let includePaths ← Tree.fieldD fields "include_paths" [] Toml.texts?
  let defines ← Tree.fieldD fields "defines" [] Toml.textFields?
  let definitions ← Tree.fieldD fields "definitions" none fun value => value.text?.map some
  let config : Config :=
    { includePaths := includePaths.map Path.mk
      defines := .ofList defines
      definitions := definitions.map Path.mk }
  Tree.fieldD fields "diagnostics" config config.withDiagnostics?

def parse (text : String) : Except ReadError Config :=
  match (Toml.parse? text).bind ofToml? with
  | some config => .ok config
  | none => .error .invalid

/-- Read a configuration file. Relative paths in it start from its directory. -/
def readFile (system : FileSystem) (path : Path) : Except ReadError Config :=
  match system.read path with
  | .error _ => .error (.unreadable path)
  | .ok text =>
    ((parse text).mapError fun _ => .invalidFile path).map fun config =>
      match path.parent? with
      | some directory => config.rebase directory
      | none => config

end ScriptLint.Config
