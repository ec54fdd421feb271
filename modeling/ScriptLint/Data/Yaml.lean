import ScriptLint.Data.Tree

/-!
# YAML values

Scalars, sequences and mappings. A plain scalar is text until something else is wanted; then its spelling decides
what it is.
-/

namespace ScriptLint

inductive Yaml where
  /-- A text, and whether it stood without quotes. -/
  | scalar (text : String) (plain : Bool)
  | sequence (items : List Yaml)
  | mapping (entries : List (Yaml × Yaml))
  deriving Inhabited

namespace Yaml

/-- What stands where nothing is written. -/
def empty : Yaml := .scalar "" true

/-! ## The meaning of plain scalars -/

def isNullText (text : String) : Bool :=
  text == "" || text == "~" || text == "null" || text == "Null" || text == "NULL"

def boolOf? (text : String) : Option Bool :=
  if ["true", "True", "TRUE"].contains text then some true
  else if ["false", "False", "FALSE"].contains text then some false
  else none

/-- Digits with a zero in front, which are no number. -/
def isPadded : List Char → Bool
  | '0' :: c :: cs => (c :: cs).all Text.isDigit
  | _ => false

/-- The size of a whole number, in base ten or with a mark for another base. -/
def magnitude? : List Char → Option Nat
  | '0' :: 'x' :: cs => Number.readNat? 16 cs
  | '0' :: 'o' :: cs => Number.readNat? 8 cs
  | '0' :: 'b' :: cs => Number.readNat? 2 cs
  | cs => if isPadded cs then none else Number.readNat? 10 cs

/-- The size of a decimal fraction that a double can hold. -/
def finite? (cs : List Char) : Option Float :=
  (Number.Decimal.read? cs).bind fun value =>
    if value.toFloat == Number.infinity then none else some value.toFloat

def isInfinityText (cs : List Char) : Bool :=
  [".inf", ".Inf", ".INF"].contains (String.ofList cs)

def fractionOf? (cs : List Char) : Option Float :=
  if [".nan", ".NaN", ".NAN"].contains (String.ofList cs) then some Number.notANumber
  else
    let (negative, size) := match cs with
      | '-' :: cs => (true, cs)
      | '+' :: cs => (false, cs)
      | cs => (false, cs)
    let value := if isInfinityText size then some Number.infinity
      else if isPadded size then none
      else finite? size
    value.map fun value => if negative then -value else value

/-- What the size of a whole number makes of it. -/
inductive Whole where
  /-- It fits into 64 bits. -/
  | fits (value : Numeral)
  /-- It fits into 128 bits only, and is refused. -/
  | refused
  /-- It fits nowhere, so it is not read as a whole number. -/
  | tooLarge

def Whole.of (negative : Bool) (size : Nat) : Whole :=
  if negative then
    if size ≤ Nat.pow 2 63 then .fits (.negated size) else if size ≤ Nat.pow 2 127 then .refused else .tooLarge
  else if size < Nat.pow 2 64 then .fits (.natural size) else if size < Nat.pow 2 128 then .refused else .tooLarge

def wholeOf? : List Char → Option Whole
  | '-' :: cs => (magnitude? cs).map (Whole.of true)
  | '+' :: cs => (magnitude? cs).map (Whole.of false)
  | cs => (magnitude? cs).map (Whole.of false)

/-- A fraction, or else the text itself. -/
def fractionOrText (text : String) : Datum :=
  match fractionOf? text.toList with
  | some value => .number (.fraction value)
  | none => .str text

/-- What a plain scalar means where any value may stand. -/
def plainValue? (text : String) : Option Datum :=
  if isNullText text then some .null
  else
    match boolOf? text with
    | some value => some (.bool value)
    | none =>
      match wholeOf? text.toList with
      | some (.fits value) => some (.number value)
      | some .refused => none
      | some .tooLarge | none => some (fractionOrText text)

/-- How many sequences and mappings may be around a value that is wanted. -/
def maxDepth : Nat := 128

mutual

/-- The value of a node where any value may stand, with at most `room` levels of sequences and mappings. -/
def value? (room : Nat) : Yaml → Option Datum
  | .scalar text plain => if plain then plainValue? text else some (.str text)
  | .sequence items => if room == 0 then none else (itemValues? (room - 1) items).map .list
  | .mapping entries => if room == 0 then none else (entryValues? (room - 1) entries).map .map

def itemValues? (room : Nat) : List Yaml → Option (List Datum)
  | [] => some []
  | item :: items => do
    let value ← value? room item
    let values ← itemValues? room items
    return value :: values

def entryValues? (room : Nat) : List (Yaml × Yaml) → Option (List (Datum × Datum))
  | [] => some []
  | (keyNode, node) :: entries => do
    let key ← value? room keyNode
    let value ← value? room node
    let values ← entryValues? room entries
    return (key, value) :: values

end

/-! ## YAML as a tree -/

def isNull : Yaml → Bool
  | .scalar text plain => plain && isNullText text
  | _ => false

def text? : Yaml → Option String
  | .scalar text _ => some text
  | _ => none

/-- A sequence; where nothing is written it is empty. -/
def items? : Yaml → Option (List Yaml)
  | .sequence items => some items
  | .scalar "" true => some []
  | _ => none

/-- A mapping from texts; where nothing is written it is empty. -/
def fields? : Yaml → Option (List (String × Yaml))
  | .mapping entries => entries.mapM fun (key, node) => (text? key).map fun name => (name, node)
  | .scalar "" true => some []
  | _ => none

instance : Tree Yaml where
  isNull := isNull
  text? := text?
  choice? _ := text?
  items? := items?
  fields? := fields?
  record? names node := (fields? node).bind (Tree.wanted? names)
  value? depth := value? (maxDepth - depth)

end Yaml

end ScriptLint
