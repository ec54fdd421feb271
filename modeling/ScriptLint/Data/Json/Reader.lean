import ScriptLint.Data.Json.Node

/-!
# Reading JSON

The reader of the JSON data format. It is strict: no trailing commas, no comments, nothing behind the value. The
arrays and objects that are not closed yet are kept in a list, so that nesting can be of any depth.
-/

namespace ScriptLint.Json

/-- What may stand between the parts of a document. -/
def isBlank (c : Char) : Bool :=
  c == ' ' || c == '\t' || c == '\n' || c == '\r'

def skipBlanks (cs : List Char) : List Char := cs.dropWhile isBlank

/-! ## Numbers -/

/-- Digits of a number with a scale, in one machine word. -/
structure Scaled where
  digits : Nat
  exponent : Int

/-- Add a digit, if the word can hold it. -/
def Scaled.push? (value : Scaled) (c : Char) : Option Nat :=
  let digits := value.digits * 10 + Text.digitValue c
  if digits < Nat.pow 2 64 then some digits else none

/-- Digits in front of the point. From the first one that does not fit, each only raises the scale. -/
def Scaled.whole (value : Scaled) : List Char → Scaled
  | [] => value
  | c :: cs =>
    match value.push? c with
    | some digits => Scaled.whole ⟨digits, value.exponent⟩ cs
    | none => ⟨value.digits, value.exponent + (cs.length + 1)⟩

/-- Digits behind the point. From the first one that does not fit, all are dropped. -/
def Scaled.fraction (value : Scaled) : List Char → Scaled
  | [] => value
  | c :: cs =>
    match value.push? c with
    | some digits => Scaled.fraction ⟨digits, value.exponent - 1⟩ cs
    | none => value

/-- The largest power of ten that a double can hold. -/
def largestPower : Nat := 308

/-- Scale by a power of ten with one rounding, and by more steps for very small numbers. `none` when the result
is too large. -/
def scale? : (steps : Nat) → Float → Int → Option Float
  | 0, value, _ => some value
  | steps + 1, value, exponent =>
    if exponent.natAbs ≤ largestPower then
      let power := Float.ofScientific 1 false exponent.natAbs
      let scaled := if exponent < 0 then value / power else value * power
      if scaled == Number.infinity then none else some scaled
    else if value == 0 then some value
    else if 0 ≤ exponent then none
    else scale? steps (value / Float.ofScientific 1 false largestPower) (exponent + largestPower)

/-- The double of scaled digits. Three steps bring every value to zero or into range. -/
def Scaled.toFloat? (value : Scaled) : Option Float :=
  scale? 4 (Float.ofNat value.digits) value.exponent

/-- The digits in front of a number's point; a zero stands alone. -/
def readWhole? : List Char → Option (List Char × List Char)
  | '0' :: cs => if (cs.head?.any Text.isDigit) then none else some (['0'], cs)
  | cs =>
    let digits := cs.takeWhile Text.isDigit
    if digits.isEmpty then none else some (digits, cs.dropWhile Text.isDigit)

def readFraction? : List Char → Option (Option (List Char) × List Char)
  | '.' :: cs =>
    let digits := cs.takeWhile Text.isDigit
    if digits.isEmpty then none else some (some digits, cs.dropWhile Text.isDigit)
  | cs => some (none, cs)

def readPower? (negative : Bool) (cs : List Char) : Option (Option Int × List Char) :=
  (Number.readNat? 10 (cs.takeWhile Text.isDigit)).map fun power =>
    (some (if negative then -(power : Int) else (power : Int)), cs.dropWhile Text.isDigit)

def readExponent? : List Char → Option (Option Int × List Char)
  | [] => some (none, [])
  | c :: cs =>
    if c == 'e' || c == 'E' then
      match cs with
      | '-' :: cs => readPower? true cs
      | '+' :: cs => readPower? false cs
      | cs => readPower? false cs
    else some (none, c :: cs)

/-- A number without a point or an exponent is whole if 64 bits can hold it. Minus zero is not whole. -/
def ofWhole? (negative : Bool) (digits : List Char) : Option Numeral :=
  let value := Number.ofDigits 10 digits
  if negative then if 0 < value && value ≤ Nat.pow 2 63 then some (.negated value) else none
  else if value < Nat.pow 2 64 then some (.natural value) else none

/-- The number of its parts, if a double can hold it. -/
def numeral? (negative : Bool) (digits : List Char) (places : Option (List Char)) (power : Option Int) :
    Option Numeral :=
  match places, power, ofWhole? negative digits with
  | none, none, some value => some value
  | _, _, _ =>
    let scaled := (Scaled.whole ⟨0, 0⟩ digits).fraction (places.getD [])
    (Scaled.toFloat? ⟨scaled.digits, scaled.exponent + power.getD 0⟩).map fun value =>
      .fraction (if negative then -value else value)

def readNumber? (negative : Bool) (cs : List Char) : Option (Node × List Char) := do
  let (digits, cs) ← readWhole? cs
  let (places, cs) ← readFraction? cs
  let (power, cs) ← readExponent? cs
  return (.number (numeral? negative digits places power), cs)

/-! ## Strings -/

def hexUnit? (a b c d : Char) : Option Nat := Number.readNat? 16 [a, b, c, d]

def isHighSurrogate (n : Nat) : Bool := 0xD800 ≤ n && n < 0xDC00

def isLowSurrogate (n : Nat) : Bool := 0xDC00 ≤ n && n < 0xE000

def ofSurrogates (high low : Nat) : Char :=
  Char.ofNat (0x10000 + (high - 0xD800) * 0x400 + (low - 0xDC00))

def unescape? : Char → Option Char
  | '"' => some '"'
  | '\\' => some '\\'
  | '/' => some '/'
  | 'b' => some '\x08'
  | 'f' => some '\x0c'
  | 'n' => some '\n'
  | 'r' => some '\r'
  | 't' => some '\t'
  | _ => none

def readLowUnit? : List Char → Option (Nat × List Char)
  | '\\' :: 'u' :: a :: b :: c :: d :: cs =>
    (hexUnit? a b c d).bind fun unit => if isLowSurrogate unit then some (unit, cs) else none
  | _ => none

/-- A character given by its number: one unit, or the two units of a surrogate pair. Half of a pair is no
character. -/
def readUnits? : List Char → Option (Option Char × List Char)
  | a :: b :: c :: d :: cs =>
    (hexUnit? a b c d).map fun unit =>
      if isHighSurrogate unit then
        match readLowUnit? cs with
        | some (low, cs) => (some (ofSurrogates unit low), cs)
        | none => (none, cs)
      else if isLowSurrogate unit then (none, cs)
      else (some (Char.ofNat unit), cs)
  | _ => none

/-- One character of a string; control characters have to be escaped. -/
def readChar? : List Char → Option (Option Char × List Char)
  | [] => none
  | '\\' :: 'u' :: cs => readUnits? cs
  | '\\' :: c :: cs => (unescape? c).map fun c => (some c, cs)
  | c :: cs => if c.toNat < 0x20 || c == '\\' then none else some (some c, cs)

/-- Read a string behind some characters of it, last first. -/
def readText? : (limit : Nat) → (before : List (Option Char)) → List Char →
    Option (List (Option Char) × List Char)
  | 0, _, _ => none
  | _, before, '"' :: cs => some (before.reverse, cs)
  | limit + 1, before, cs => (readChar? cs).bind fun (c, cs) => readText? limit (c :: before) cs

/-- Read a string behind its opening quote. It is a text if it has no half of a pair in it. -/
def readString? (cs : List Char) : Option (Option String × List Char) :=
  (readText? (cs.length + 1) [] cs).map fun (text, cs) => ((text.mapM id).map String.ofList, cs)

/-! ## Values -/

/-- A word that stands for a value. -/
def readWord? (word : String) (value : Node) (cs : List Char) : Option (Node × List Char) :=
  (Text.dropBeginning? word.toList cs).map fun cs => (value, cs)

/-- A value that is neither an array nor an object. -/
def readScalar? : List Char → Option (Node × List Char)
  | '"' :: cs => (readString? cs).map fun (text, cs) => (.str text, cs)
  | '-' :: cs => readNumber? true cs
  | 'n' :: cs => readWord? "ull" .null cs
  | 't' :: cs => readWord? "rue" (.bool true) cs
  | 'f' :: cs => readWord? "alse" (.bool false) cs
  | cs => readNumber? false cs

def readName? (cs : List Char) : Option (Option String × List Char) :=
  match skipBlanks cs with
  | '"' :: cs => do
    let (name, cs) ← readString? cs
    match skipBlanks cs with
    | ':' :: cs => return (name, cs)
    | _ => none
  | _ => none

/-- An array or object that is not closed yet, with what stands in it in front of the next value, last first. -/
inductive Frame where
  | items (before : List Node)
  | fields (before : List (Option String × Node)) (name : Option String)

/-- How far a document is read: up to a value that is still to come, or up to the end of the outermost one. -/
inductive Progress where
  | awaiting (frames : List Frame) (rest : List Char)
  | done (value : Node) (rest : List Char)

/-- Put a value into the innermost frame, and close the frames that end behind it. -/
def settle? : List Frame → Node → List Char → Option Progress
  | [], value, cs => some (.done value cs)
  | .items before :: frames, value, cs =>
    match skipBlanks cs with
    | ',' :: cs => some (.awaiting (.items (value :: before) :: frames) cs)
    | ']' :: cs => settle? frames (.arr (value :: before).reverse) cs
    | _ => none
  | .fields before name :: frames, value, cs =>
    let before := (name, value) :: before
    match skipBlanks cs with
    | ',' :: cs => (readName? cs).map fun (name, cs) => .awaiting (.fields before name :: frames) cs
    | '}' :: cs => settle? frames (.obj before.reverse) cs
    | _ => none

/-- Read a scalar, or the beginning of an array or object. -/
def advance? (frames : List Frame) (cs : List Char) : Option Progress :=
  match skipBlanks cs with
  | '[' :: cs =>
    match skipBlanks cs with
    | ']' :: cs => settle? frames (.arr []) cs
    | cs => some (.awaiting (.items [] :: frames) cs)
  | '{' :: cs =>
    match skipBlanks cs with
    | '}' :: cs => settle? frames (.obj []) cs
    | cs => (readName? cs).map fun (name, cs) => .awaiting (.fields [] name :: frames) cs
  | cs => (readScalar? cs).bind fun (value, cs) => settle? frames value cs

/-- Read the values of a document; each takes at least one character. -/
def readValue? : (limit : Nat) → List Frame → List Char → Option (Node × List Char)
  | 0, _, _ => none
  | limit + 1, frames, cs =>
    match advance? frames cs with
    | none => none
    | some (.done value cs) => some (value, cs)
    | some (.awaiting frames cs) => readValue? limit frames cs

/-- Read a document that holds one value and nothing else. -/
def parse? (text : String) : Option Node :=
  let cs := text.toList
  (readValue? (cs.length + 1) [] cs).bind fun (value, cs) =>
    if (skipBlanks cs).isEmpty then some value else none

end ScriptLint.Json
