import ScriptLint.Number.Decimal

/-!
# Values of any data format

What a document says where anything may stand. Unlike in a single format, the keys of a map are values themselves.
-/

namespace ScriptLint

/-- A number, and how it is written: without a sign, behind a minus sign, or not as a whole number. -/
inductive Numeral where
  | natural (n : Nat)
  | negated (n : Nat)
  | fraction (x : Float)
  deriving Inhabited

inductive Datum where
  | null
  | bool (value : Bool)
  | number (value : Numeral)
  | str (text : String)
  | list (items : List Datum)
  | map (entries : List (Datum × Datum))
  deriving Inhabited

namespace Datum

def isNull : Datum → Bool
  | .null => true
  | _ => false

/-- Nothing, or a map with nothing in it. -/
def isUnit : Datum → Bool
  | .null | .map [] => true
  | _ => false

def text? : Datum → Option String
  | .str text => some text
  | _ => none

/-- A name that a key gives: a text as it is, and a number by its place among the known names. What is neither
cannot be a name; a number beyond the known names is `some none`. -/
def name? (known : List String) : Datum → Option (Option String)
  | .str name => some (some name)
  | .number (.natural n) => some known[n]?
  | _ => none

/-- A name, alone or as the only key of a map, with no value. -/
def choice? (known : List String) : Datum → Option String
  | .str name => some name
  | .map [(key, value)] => if value.isUnit then (key.name? known).join else none
  | _ => none

def items? : Datum → Option (List Datum)
  | .list items => some items
  | _ => none

/-- The entries of a map that have a known name or another text for a key. -/
def namedEntries? (known : List String) : List (Datum × Datum) → Option (List (String × Datum))
  | [] => some []
  | (key, value) :: entries => do
    let name ← key.name? known
    let named ← namedEntries? known entries
    return (name.map fun name => (name, value)).toList ++ named

def fields? : Datum → Option (List (String × Datum))
  | .map entries => entries.mapM fun (key, value) => (text? key).map fun name => (name, value)
  | _ => none

end Datum

end ScriptLint
