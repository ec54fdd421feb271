import ScriptLint.Data.Datum

/-!
# Trees of data

What a record reader asks of a data format. A format may leave open what a scalar is until it is known what is
wanted, so each question says what it wants.
-/

namespace ScriptLint

class Tree (α : Type) where
  /-- Nothing, where something may be left out. -/
  isNull : α → Bool
  text? : α → Option String
  choice? : List String → α → Option String
  items? : α → Option (List α)
  /-- A map from names is wanted, in the order of the document. -/
  fields? : α → Option (List (String × α))
  record? : List String → α → Option (List (String × α))
  /-- Any value is wanted. It stands inside so many lists and maps, which count as the levels in it do. -/
  value? : (depth : Nat) → α → Option Datum

namespace Tree

variable {α : Type} [Tree α]

/-- The fields of a record that have one of the wanted names. None of them may be given twice. -/
def wanted? {β : Type} (names : List String) (fields : List (String × β)) : Option (List (String × β)) :=
  let known := fields.filter fun field => names.contains field.1
  if (known.map Prod.fst).Nodup then some known else none

/-- The fields of a record that is written as a list of them, in order. -/
def ordered? {β : Type} (names : List String) (items : List β) : Option (List (String × β)) :=
  if items.length ≤ names.length then some (names.zip items) else none

/-- Read a field of a record, or take a default for it when it is not given. -/
def fieldD {β γ : Type} (fields : List (String × β)) (name : String) (default : γ) (read : β → Option γ) :
    Option γ :=
  match fields.lookup name with
  | some value => read value
  | none => some default

/-- Read a field that a record has to have. -/
def field? {β γ : Type} (fields : List (String × β)) (name : String) (read : β → Option γ) : Option γ :=
  (fields.lookup name).bind read

def nullable? {β : Type} (read : α → Option β) (value : α) : Option (Option β) :=
  if isNull value then some none else (read value).map some

def list? {β : Type} (read : α → Option β) (value : α) : Option (List β) :=
  (items? value).bind fun items => items.mapM read

end Tree

/-! ## Values as trees -/

namespace Datum

/-- A record is a map, or a list of its fields in order. -/
def record? (names : List String) : Datum → Option (List (String × Datum))
  | .map entries => (namedEntries? names entries).bind (Tree.wanted? names)
  | .list items => Tree.ordered? names items
  | _ => none

instance : Tree Datum where
  isNull := isNull
  text? := text?
  choice? := choice?
  items? := items?
  fields? := fields?
  record? := record?
  value? _ := some

end Datum

end ScriptLint
