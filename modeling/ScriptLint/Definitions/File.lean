import ScriptLint.Data.Json.Reader
import ScriptLint.Data.Yaml.Reader
import ScriptLint.Definitions.Bundled
import ScriptLint.Definitions.Reader
import ScriptLint.FileSystem

/-!
# Files of definitions

Definitions are written in JSON or YAML; the extension of a file's name says in which.
-/

namespace ScriptLint.Definitions

inductive Format where
  | json
  | yaml
  deriving Repr, DecidableEq

namespace Format

def name : Format → String
  | json => "JSON"
  | yaml => "YAML"

/-- The format that an extension in lower case stands for. -/
def ofExtension? (extension : String) : Option Format :=
  if extension == "json" then some json
  else if extension == "yaml" || extension == "yml" then some yaml
  else none

end Format

inductive ReadError where
  | invalid (format : Format)
  | invalidFile (path : Path)
  | unreadable (path : Path)
  | unsupported (extension : String) (path : Path)
  deriving Repr, DecidableEq

def ReadError.message : ReadError → String
  | invalid format => s!"invalid definitions {format.name}"
  | invalidFile path => s!"in {path.text}"
  | unreadable path => s!"failed to read definitions {path.text}"
  | unsupported extension path => s!"unsupported definitions format '{extension}' for {path.text}"

def parse (format : Format) (text : String) : Except ReadError Definitions :=
  let definitions := match format with
    | .json => (Json.parse? text).bind ofTree?
    | .yaml => (Yaml.parse? text).bind ofTree?
  match definitions with
  | some definitions => .ok definitions
  | none => .error (.invalid format)

def readFile (system : FileSystem) (path : Path) : Except ReadError Definitions :=
  match system.read path with
  | .error _ => .error (.unreadable path)
  | .ok text =>
    let extension := Text.lowerString (path.extension?.getD "")
    match Format.ofExtension? extension with
    | none => .error (.unsupported extension path)
    | some format => (parse format text).mapError fun _ => .invalidFile path

/-- The bundled definitions, and those of another file over them. -/
def load (system : FileSystem) (extra : Option Path) : Except ReadError Definitions :=
  match extra with
  | none => .ok bundled
  | some path => (readFile system path).map bundled.merge

end ScriptLint.Definitions
