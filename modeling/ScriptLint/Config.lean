import ScriptLint.Diagnostic
import ScriptLint.Macro.Table

/-!
# Configuration

Where includes are looked for, what is defined beforehand, and which diagnostics are wanted.
-/

namespace ScriptLint

structure Config where
  /-- Directories searched after the including file's own one. -/
  includePaths : List Path := []
  /-- Definitions before the first line, as names and replacement texts. -/
  defines : NameMap String := ∅
  /-- A file of definitions to add to the bundled ones. -/
  definitions : Option Path := none
  /-- Codes or names of diagnostics that are never reported. -/
  disabled : List String := []
  /-- How many diagnostics are reported at most. -/
  maxDiagnostics : Nat := 200
  deriving Repr, DecidableEq, Inhabited

namespace Config

/-- What cannot be used in a configuration. -/
inductive Invalid where
  | define (name : String) (error : Macro.DefineError)
  | code (error : Code.Unknown)
  deriving Repr, DecidableEq

def Invalid.message : Invalid → String
  | define name error => s!"invalid define '{name}': {error.message}"
  | code error => error.message

/-- Take relative paths from a directory. -/
def rebase (config : Config) (directory : Path) : Config :=
  { config with
    includePaths := config.includePaths.map directory.join
    definitions := config.definitions.map directory.join }

/-- Add a definition given as `NAME` or `NAME=VALUE`; a bare name stands for one. -/
def addDefine (config : Config) (text : String) : Config :=
  let cs := text.toList
  let name := String.ofList (Text.trim (cs.takeWhile (· != '=')))
  let value := match cs.dropWhile (· != '=') with
    | [] => "1"
    | _ :: value => String.ofList (Text.trim value)
  { config with defines := config.defines.insert name value }

/-- Add one entry of the defined names to a table. -/
def addPredefined (table : Macro.Table) (name value : String) : Except Invalid Macro.Table :=
  match Macro.parseDefine (name ++ " " ++ value).toList with
  | .error error => .error (.define name error)
  | .ok defined => .ok (table.define ⟨defined.name, defined.definition, .empty 0, none⟩)

/-- The table that every document starts from. -/
def predefined (config : Config) : Except Invalid Macro.Table :=
  config.defines.entries.foldlM (fun table entry => addPredefined table entry.1 entry.2) ∅

/-- The codes that are never reported. -/
def disabledCodes (config : Config) : Except Invalid (List Code) :=
  config.disabled.mapM fun text => (Code.parse text).mapError .code

end Config

end ScriptLint
