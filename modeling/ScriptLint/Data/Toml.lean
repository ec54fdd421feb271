import ScriptLint.Number.Decimal

/-!
# TOML values

Values of the TOML format for configuration files. Dates and arrays of tables are not among them.
-/

namespace ScriptLint

inductive Toml where
  | str (text : String)
  | int (n : Int)
  | float (x : Float)
  | bool (b : Bool)
  | array (items : List Toml)
  | table (fields : List (String × Toml))
  deriving Inhabited

namespace Toml

def text? : Toml → Option String
  | .str text => some text
  | _ => none

def texts? : Toml → Option (List String)
  | .array items => items.mapM text?
  | _ => none

/-- A whole number that is not negative and fits into a machine word. -/
def count? : Toml → Option Nat
  | .int n => if 0 ≤ n && n < (Nat.pow 2 64 : Int) then some n.toNat else none
  | _ => none

/-- The fields of a table, all of which must have known names. -/
def fields? (known : List String) : Toml → Option (List (String × Toml))
  | .table fields => if fields.all fun field => known.contains field.1 then some fields else none
  | _ => none

/-- A table of known fields, or an array that gives them in order. What an array has beyond them is ignored. -/
def record? (known : List String) : Toml → Option (List (String × Toml))
  | .array items => some (known.zip items)
  | value => value.fields? known

def textFields? : Toml → Option (List (String × String))
  | .table fields => fields.mapM fun field => (text? field.2).map fun text => (field.1, text)
  | _ => none

end Toml

end ScriptLint
