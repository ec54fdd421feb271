import ScriptLint.Macro.Definition
import ScriptLint.NameMap
import ScriptLint.Text.Digest

/-!
# Tables of definitions

The definitions in force at a place of a document, ordered by name. A name keeps its first definition until
it is undefined. The key text lists everything that matters about a table, so its digest identifies one.
-/

namespace ScriptLint.Macro

abbrev Table := NameMap Macro

namespace Table

/-- Add a definition; an existing one of the same name stays. -/
def define (table : Table) (added : Macro) : Table :=
  table.insertNew added.name added

def defineAll (table : Table) (added : List Macro) : Table :=
  added.foldl define table

def objects (table : Table) : List (String × String) :=
  (table.values.filter fun entry => !entry.definition.isFunction).map fun entry =>
    (entry.name, entry.definition.body)

def functions (table : Table) : List (String × String) :=
  (table.values.filter fun entry => entry.definition.isFunction).map fun entry =>
    (entry.name, entry.definition.body)

def paramText : Definition → String
  | .object _ => ""
  | .function params variadic _ =>
    "(" ++ ",".intercalate params ++ (if variadic then "..." else "") ++ ")"

/-- Name, parameters and body of one definition. -/
def entryText (entry : Macro) : String :=
  entry.name ++ paramText entry.definition ++ "\x00" ++ entry.definition.body ++ "\n"

/-- Everything that distinguishes a table, in the order of the names. -/
def keyText (table : Table) : String :=
  String.join (table.values.map entryText)

def fingerprint (table : Table) : UInt64 :=
  Digest.ofText table.keyText

end Table

end ScriptLint.Macro
