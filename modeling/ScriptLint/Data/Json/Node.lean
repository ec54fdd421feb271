import ScriptLint.Data.Json
import ScriptLint.Data.Tree

/-!
# JSON documents

What is written in a JSON document, before it is known what is wanted of it. A number can be too large and a string
can have half of a surrogate pair in it: both are well-formed, but they stand for no value. They do no harm where
nothing is wanted of them.
-/

namespace ScriptLint.Json

inductive Node where
  | null
  | bool (value : Bool)
  | number (value : Option Numeral)
  | str (text : Option String)
  | arr (items : List Node)
  | obj (fields : List (Option String × Node))
  deriving Inhabited

namespace Node

/-- How many arrays and objects may be around a value that is wanted. -/
def maxDepth : Nat := 127

mutual

/-- The value of a node with at most `room` levels of arrays and objects. -/
def value? (room : Nat) : Node → Option Datum
  | .null => some .null
  | .bool value => some (.bool value)
  | .number value => value.map .number
  | .str text => text.map .str
  | .arr items => if room == 0 then none else (itemValues? (room - 1) items).map .list
  | .obj fields => if room == 0 then none else (fieldValues? (room - 1) fields).map .map

def itemValues? (room : Nat) : List Node → Option (List Datum)
  | [] => some []
  | item :: items => do
    let value ← value? room item
    let values ← itemValues? room items
    return value :: values

def fieldValues? (room : Nat) : List (Option String × Node) → Option (List (Datum × Datum))
  | [] => some []
  | (name, node) :: fields => do
    let name ← name
    let value ← value? room node
    let values ← fieldValues? room fields
    return (.str name, value) :: values

end

def text? : Node → Option String
  | .str text => text
  | _ => none

/-- A name, alone or as the only field of an object, with no value. -/
def choice? : Node → Option String
  | .str name => name
  | .obj [(name, .null)] => name
  | _ => none

def fields? : Node → Option (List (String × Node))
  | .obj fields => fields.mapM fun (name, node) => name.map fun name => (name, node)
  | _ => none

/-- A record is an object, or an array of its fields in order. -/
def record? (names : List String) : Node → Option (List (String × Node))
  | .arr items => Tree.ordered? names items
  | node => (fields? node).bind (Tree.wanted? names)

instance : Tree Node where
  isNull
    | .null => true
    | _ => false
  text? := text?
  choice? _ := choice?
  items?
    | .arr items => some items
    | _ => none
  fields? := fields?
  record? := record?
  value? depth := value? (maxDepth - depth)

end Node

end ScriptLint.Json
