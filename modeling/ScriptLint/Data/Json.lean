import ScriptLint.Number.Decimal
import ScriptLint.Text.Digest

/-!
# JSON values

Values of the JSON data format and their printed form, indented by two spaces. The fields of an
object keep the order in which they are given.
-/

namespace ScriptLint

inductive Json where
  | null
  | bool (value : Bool)
  | int (value : Int)
  | float (value : Float)
  | str (value : String)
  | arr (items : List Json)
  | obj (fields : List (String × Json))
  deriving Inhabited

namespace Json

/-- A string, or null. -/
def ofString? : Option String → Json
  | some value => .str value
  | none => .null

def nat (value : Nat) : Json := .int value

def escape (c : Char) : List Char :=
  match c with
  | '"' => ['\\', '"']
  | '\\' => ['\\', '\\']
  | '\n' => ['\\', 'n']
  | '\r' => ['\\', 'r']
  | '\t' => ['\\', 't']
  | '\x08' => ['\\', 'b']
  | '\x0c' => ['\\', 'f']
  | c => if c.toNat < 0x20 then '\\' :: 'u' :: Digest.hexDigits 4 c.toNat else [c]

def quote (text : String) : String :=
  String.ofList ('"' :: text.toList.flatMap escape ++ ['"'])

/-- Shortest digits, even ones from the middle; positional from five places after the point up to sixteen before
it, and with a signed exponent outside. Infinities have no JSON form and become null. -/
def renderFloat (x : Float) : String :=
  match Number.Binary.ofFloat? x with
  | none => "null"
  | some value =>
    let sign := if value.negative then "-" else ""
    if value.significand == 0 then sign ++ "0.0"
    else
      let decimal := Number.Decimal.shortest .even value.significand value.exponent
      let digits := Nat.toDigits 10 decimal.digits
      let point := decimal.exponent + (digits.length : Int)
      if 0 ≤ decimal.exponent && point ≤ 16 then sign ++ decimal.positional ++ ".0"
      else if -5 < point && point ≤ 16 then sign ++ decimal.positional
      else
        let mantissa := match digits with
          | [digit] => [digit]
          | first :: rest => first :: '.' :: rest
          | [] => []
        let mark := if 0 < point then "e+" else "e"
        sign ++ String.ofList mantissa ++ mark ++ toString (point - 1)

def indent (depth : Nat) : String :=
  String.ofList (List.replicate (2 * depth) ' ')

mutual

/-- Printed form of a value that stands at a nesting depth. -/
def renderAt (depth : Nat) : Json → String
  | .null => "null"
  | .bool value => if value then "true" else "false"
  | .int value => toString value
  | .float value => renderFloat value
  | .str value => quote value
  | .arr [] => "[]"
  | .arr (item :: items) =>
    "[\n" ++ renderItems (depth + 1) (item :: items) ++ "\n" ++ indent depth ++ "]"
  | .obj [] => "\x7b\x7d"
  | .obj (field :: fields) =>
    "\x7b\n" ++ renderFields (depth + 1) (field :: fields) ++ "\n" ++ indent depth ++ "\x7d"

def renderItems (depth : Nat) : List Json → String
  | [] => ""
  | [item] => indent depth ++ renderAt depth item
  | item :: items => indent depth ++ renderAt depth item ++ ",\n" ++ renderItems depth items

def renderFields (depth : Nat) : List (String × Json) → String
  | [] => ""
  | [(name, value)] => indent depth ++ quote name ++ ": " ++ renderAt depth value
  | (name, value) :: fields =>
    indent depth ++ quote name ++ ": " ++ renderAt depth value ++ ",\n" ++ renderFields depth fields

end

def render (value : Json) : String := renderAt 0 value

end Json

end ScriptLint
