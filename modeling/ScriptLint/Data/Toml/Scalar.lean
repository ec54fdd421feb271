import ScriptLint.Data.Toml

/-!
# TOML scalars

Strings of the four kinds, numbers and truth values.
-/

namespace ScriptLint.Toml

/-- White space within a line. -/
def isBlank (c : Char) : Bool := c == ' ' || c == '\t'

def skipBlanks (cs : List Char) : List Char := cs.dropWhile isBlank

/-- A character that may stand in comments and on the lines of strings. -/
def isAllowed (c : Char) : Bool :=
  c == '\t' || (0x20 ≤ c.toNat && c.toNat != 0x7F)

def dropLineEnd? : List Char → Option (List Char)
  | '\n' :: cs => some cs
  | '\r' :: '\n' :: cs => some cs
  | _ => none

/-! ## Strings -/

def unescape? : Char → Option Char
  | 'b' => some '\x08'
  | 't' => some '\t'
  | 'n' => some '\n'
  | 'f' => some '\x0c'
  | 'r' => some '\r'
  | 'e' => some '\x1b'
  | '"' => some '"'
  | '\\' => some '\\'
  | _ => none

def escapeDigits? : Char → Option Nat
  | 'x' => some 2
  | 'u' => some 4
  | 'U' => some 8
  | _ => none

def readEscape? : List Char → Option (Char × List Char)
  | [] => none
  | c :: cs =>
    match escapeDigits? c with
    | none => (unescape? c).map fun c => (c, cs)
    | some count => do
      let number ← if (cs.take count).length == count then Number.readNat? 16 (cs.take count) else none
      if number.isValidChar then some (Char.ofNat number, cs.drop count) else none

def readLine? (quote : Char) : (limit : Nat) → List Char → Option (List Char × List Char)
  | 0, _ | _, [] => none
  | limit + 1, c :: cs =>
    if c == quote then some ([], cs)
    else if c == '\\' && quote == '"' then do
      let (c, cs) ← readEscape? cs
      let (text, cs) ← readLine? quote limit cs
      return (c :: text, cs)
    else if isAllowed c then (readLine? quote limit cs).map fun (text, cs) => (c :: text, cs)
    else none

def skipLines : List Char → List Char
  | '\r' :: '\n' :: cs => skipLines cs
  | c :: cs => if isBlank c || c == '\n' then skipLines cs else c :: cs
  | [] => []

/-- Behind a backslash only blanks stand up to the end of the line. -/
def atLineEnd (cs : List Char) : Bool := (dropLineEnd? (skipBlanks cs)).isSome

/-- The quotes at the end of a string of several lines: three, and up to two in front of them that belong to the
string. -/
def closingQuotes? (quote : Char) (cs : List Char) : Option (List Char × List Char) :=
  let quotes := cs.takeWhile (· == quote)
  if quotes.length < 3 then none
  else some (List.replicate (min (quotes.length - 3) 2) quote, cs.drop (min quotes.length 5))

def readLines? (quote : Char) : (limit : Nat) → List Char → Option (List Char × List Char)
  | 0, _ | _, [] => none
  | limit + 1, c :: cs =>
    match closingQuotes? quote (c :: cs) with
    | some found => some found
    | none =>
      if c == '\\' && quote == '"' then
        if atLineEnd cs then readLines? quote limit (skipLines cs)
        else do
          let (c, cs) ← readEscape? cs
          let (text, cs) ← readLines? quote limit cs
          return (c :: text, cs)
      else
        match dropLineEnd? (c :: cs) with
        | some cs => (readLines? quote limit cs).map fun (text, cs) => ('\n' :: text, cs)
        | none =>
          if isAllowed c then (readLines? quote limit cs).map fun (text, cs) => (c :: text, cs)
          else none

def readString? (quote : Char) (cs : List Char) : Option (String × List Char) :=
  let text := match cs with
    | c :: d :: cs =>
      if c == quote && d == quote then
        let cs := (dropLineEnd? cs).getD cs
        readLines? quote (cs.length + 1) cs
      else readLine? quote (cs.length + 3) (c :: d :: cs)
    | cs => readLine? quote (cs.length + 1) cs
  text.map fun (text, cs) => (String.ofList text, cs)

/-! ## Numbers and truth values -/

/-- Digits with underscores between them. -/
def readDigits? (test : Char → Bool) (cs : List Char) : Option (List Char) :=
  let groups := Text.splitAtChars (· == '_') cs
  if groups.all fun group => !group.isEmpty && group.all test then some groups.flatten else none

/-- Digits without a zero in front. -/
def readWhole? (cs : List Char) : Option (List Char) :=
  (readDigits? Text.isDigit cs).bind fun digits =>
    if digits.length != 1 && digits.head? == some '0' then none else some digits

def splitSign : List Char → Bool × List Char
  | '-' :: cs => (true, cs)
  | '+' :: cs => (false, cs)
  | cs => (false, cs)

/-- A whole number in base ten, or with a mark and no sign in another base. -/
def readInt? (cs : List Char) : Option Int :=
  let based (base : Nat) (digits : List Char) : Option Int :=
    let test := fun c => Text.isHexDigit c && Text.digitValue c < base
    (readDigits? test digits).map fun digits => (Number.ofDigits base digits : Int)
  match cs with
  | '0' :: 'x' :: cs => based 16 cs
  | '0' :: 'o' :: cs => based 8 cs
  | '0' :: 'b' :: cs => based 2 cs
  | cs =>
    let (negative, cs) := splitSign cs
    (readWhole? cs).map fun digits =>
      let size : Int := Number.ofDigits 10 digits
      if negative then -size else size

def readPower? : List Char → Option Int
  | [] => some 0
  | _ :: cs =>
    let (negative, cs) := splitSign cs
    (readDigits? Text.isDigit cs).map fun digits =>
      let size : Int := Number.ofDigits 10 digits
      if negative then -size else size

/-- A number with a point or an exponent, or one that is not finite. -/
def readFloat? (cs : List Char) : Option Float :=
  let (negative, cs) := splitSign cs
  let size := if cs == "inf".toList then some Number.infinity
    else if cs == "nan".toList then some Number.notANumber
    else do
      let isPower (c : Char) : Bool := c == 'e' || c == 'E'
      let number := cs.takeWhile fun c => !isPower c
      let power ← readPower? (cs.dropWhile fun c => !isPower c)
      let whole ← readWhole? (number.takeWhile (· != '.'))
      let places ← match number.dropWhile (· != '.') with
        | [] => some []
        | _ :: places => readDigits? Text.isDigit places
      return Number.Decimal.toFloat ⟨Number.ofDigits 10 (whole ++ places), power - (places.length : Int)⟩
  size.map fun size => if negative then -size else size

def isWordPart (c : Char) : Bool :=
  Text.isLetter c || Text.isDigit c || c == '_' || c == '+' || c == '-' || c == '.'

/-- A value that is written as one word. -/
def ofWord? (word : List Char) : Option Toml :=
  if word == "true".toList then some (.bool true)
  else if word == "false".toList then some (.bool false)
  else
    match readInt? word with
    | some n => some (.int n)
    | none => (readFloat? word).map .float

end ScriptLint.Toml
