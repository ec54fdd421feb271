import ScriptLint.NameMap
import ScriptLint.Signature

/-!
# Definitions

The functions, events and constants that every script can use.
-/

namespace ScriptLint

/-- A built-in function. A call may fit its main signature or one of the others. -/
structure FunctionEntry where
  signature : Signature := {}
  overloads : List Signature := []
  doc : Option String := none
  deriving Repr, DecidableEq

/-- An event that a state can handle. -/
structure EventEntry where
  params : List Param := []
  doc : Option String := none
  deriving Repr, DecidableEq

inductive ConstantValue where
  | int (n : Int)
  | float (x : Float)
  | str (text : String)
  deriving Repr

structure ConstantEntry where
  type : SemType
  value : Option ConstantValue := none
  doc : Option String := none
  deriving Repr

structure Definitions where
  functions : NameMap FunctionEntry := ∅
  events : NameMap EventEntry := ∅
  constants : NameMap ConstantEntry := ∅
  deriving Repr, Inhabited

namespace Definitions

/-- Add other definitions, which replace those of the same name. -/
def merge (definitions later : Definitions) : Definitions :=
  { functions := definitions.functions.merge later.functions
    events := definitions.events.merge later.events
    constants := definitions.constants.merge later.constants }

/-- Every signature of a function, the main one first. -/
def signatures (definitions : Definitions) (name : String) : List Signature :=
  match definitions.functions.get? name with
  | some entry => entry.signature :: entry.overloads
  | none => []

def size (definitions : Definitions) : Nat :=
  definitions.functions.size + definitions.events.size + definitions.constants.size

end Definitions

end ScriptLint
