import ScriptLint.Data.Tree
import ScriptLint.Definitions

/-!
# Reading definitions

Definitions are a record of three maps. Unknown fields are ignored, and of two entries with one name the later
one counts.
-/

namespace ScriptLint.Definitions

variable {α : Type} [Tree α]

def readType? (value : α) : Option SemType :=
  (Tree.choice? (SemType.all.map SemType.name) value).bind SemType.ofName?

def readParam? (value : α) : Option Param := do
  let fields ← Tree.record? ["name", "type"] value
  let name ← Tree.field? fields "name" Tree.text?
  let type ← Tree.field? fields "type" readType?
  return ⟨name, type⟩

/-- The parts of a signature; without a type it returns nothing. -/
def readSignatureFields? (fields : List (String × α)) : Option Signature := do
  let returns ← Tree.fieldD fields "returns" .void readType?
  let params ← Tree.fieldD fields "params" [] (Tree.list? readParam?)
  return ⟨returns, params⟩

def readSignature? (value : α) : Option Signature :=
  (Tree.record? ["returns", "params"] value).bind readSignatureFields?

def readDoc? (fields : List (String × α)) : Option (Option String) :=
  Tree.fieldD fields "doc" none (Tree.nullable? Tree.text?)

/-- How many maps are around the fields of an entry: the document, one of its maps, and the entry. -/
def entryDepth : Nat := 3

/-- A function's own signature lies flat among its other fields. What is left when those are taken out has to be
proper values. -/
def readFunction? (value : α) : Option FunctionEntry := do
  let fields ← Tree.fields? value
  let own ← Tree.wanted? ["overloads", "doc"] fields
  let rest ← (fields.filter fun field => field.1 != "overloads" && field.1 != "doc").mapM fun field =>
    (Tree.value? entryDepth field.2).map fun value => (field.1, value)
  let overloads ← Tree.fieldD own "overloads" [] (Tree.list? readSignature?)
  let doc ← readDoc? own
  let signature ← (Tree.wanted? ["returns", "params"] rest).bind readSignatureFields?
  return { signature, overloads, doc }

def readEvent? (value : α) : Option EventEntry := do
  let fields ← Tree.record? ["params", "doc"] value
  let params ← Tree.fieldD fields "params" [] (Tree.list? readParam?)
  let doc ← readDoc? fields
  return { params, doc }

/-- A whole number that 64 bits cannot hold with a sign is taken as a fraction. -/
def readConstantValue? (value : α) : Option ConstantValue :=
  (Tree.value? entryDepth value).bind fun
    | .number (.natural n) => some (if Number.fitsInt64 n then .int n else .float (Float.ofNat n))
    | .number (.negated n) => some (.int (-n))
    | .number (.fraction x) => some (.float x)
    | .str text => some (.str text)
    | _ => none

def readConstant? (value : α) : Option ConstantEntry := do
  let fields ← Tree.record? ["type", "value", "doc"] value
  let type ← Tree.field? fields "type" readType?
  let constant ← Tree.fieldD fields "value" none (Tree.nullable? readConstantValue?)
  let doc ← readDoc? fields
  return { type, value := constant, doc }

/-- A map from names to entries. -/
def readMap? {β : Type} (read : α → Option β) (value : α) : Option (NameMap β) := do
  let fields ← Tree.fields? value
  let entries ← fields.mapM fun field => (read field.2).map fun entry => (field.1, entry)
  return .ofList entries

def ofTree? (value : α) : Option Definitions := do
  let fields ← Tree.record? ["functions", "events", "constants"] value
  let functions ← Tree.fieldD fields "functions" ∅ (readMap? readFunction?)
  let events ← Tree.fieldD fields "events" ∅ (readMap? readEvent?)
  let constants ← Tree.fieldD fields "constants" ∅ (readMap? readConstant?)
  return { functions, events, constants }

end ScriptLint.Definitions
