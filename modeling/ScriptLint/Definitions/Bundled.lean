import ScriptLint.Definitions.Builtin.Constants
import ScriptLint.Definitions.Builtin.Events
import ScriptLint.Definitions.Builtin.Functions

/-!
# The bundled definitions

The definitions that hold unless others are given.
-/

namespace ScriptLint.Definitions

open Builtin

def paramsOf (params : List (String × SemType)) : List Param :=
  params.map fun (name, type) => ⟨name, type⟩

def bundled : Definitions :=
  { functions := .ofList (functionTable.map fun (name, returns, params) =>
      (name, { signature := ⟨returns, paramsOf params⟩ }))
    events := .ofList (eventTable.map fun (name, params) => (name, { params := paramsOf params }))
    constants := .ofList (constantTable.map fun (name, type, value) => (name, { type, value })) }

end ScriptLint.Definitions
