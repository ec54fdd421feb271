import ScriptLint.Number.Binary
import ScriptLint.Text.Chars

/-!
# Decimal numbers

Reading whole numbers and decimal fractions from text, and the shortest decimal form of a double: the
fewest digits that still read back as the same number, and of these the nearest. Where two are equally near, the
one who writes the number says which of them is taken.
-/

namespace ScriptLint.Number

/-- The value `digits · 10 ^ exponent`. -/
structure Decimal where
  digits : Nat
  exponent : Int
  deriving Repr, DecidableEq

/-- The number that some digits stand for in a base. -/
def ofDigits (base : Nat) (cs : List Char) : Nat :=
  cs.foldl (fun value c => value * base + Text.digitValue c) 0

/-- Read a whole number; `none` when there is no digit or a character is none. -/
def readNat? (base : Nat) (cs : List Char) : Option Nat :=
  let test := if base == 16 then Text.isHexDigit else fun c => Text.isDigit c && Text.digitValue c < base
  if cs.isEmpty || !cs.all test then none else some (ofDigits base cs)

def readInt? (base : Nat) : List Char → Option Int
  | '-' :: cs => (readNat? base cs).map fun n => -(n : Int)
  | '+' :: cs => (readNat? base cs).map fun n => (n : Int)
  | cs => (readNat? base cs).map fun n => (n : Int)

/-- Whether a number fits into 64 bits with a sign. -/
def fitsInt64 (n : Int) : Bool :=
  -(Nat.pow 2 63 : Int) ≤ n && n < (Nat.pow 2 63 : Int)

def readInt64? (base : Nat) (cs : List Char) : Option Int64 :=
  (readInt? base cs).bind fun n => if fitsInt64 n then some (Int64.ofInt n) else none

namespace Decimal

/-- The exponent part of a decimal: nothing, or a letter, an optional sign and digits. -/
def readExponent? : List Char → Option Int
  | [] => some 0
  | c :: cs => if c == 'e' || c == 'E' then readInt? 10 cs else none

/-- Read digits with an optional point and an optional exponent. -/
def read? (cs : List Char) : Option Decimal :=
  let whole := cs.takeWhile Text.isDigit
  let rest := cs.dropWhile Text.isDigit
  let (fraction, rest) := match rest with
    | '.' :: rest => (rest.takeWhile Text.isDigit, rest.dropWhile Text.isDigit)
    | rest => ([], rest)
  if whole.isEmpty && fraction.isEmpty then none
  else
    (readExponent? rest).map fun exponent =>
      ⟨ofDigits 10 (whole ++ fraction), exponent - (fraction.length : Int)⟩

def digitCount (n : Nat) : Nat := (Nat.toDigits 10 n).length

/-- The double nearest to a decimal. Exponents far outside the range of doubles are decided by the
number of digits alone. -/
def toFloat (value : Decimal) : Float :=
  let magnitude := value.exponent + (digitCount value.digits : Int)
  if value.digits == 0 || magnitude < -330 then 0
  else if magnitude > 310 then infinity
  else Float.ofScientific value.digits (value.exponent < 0) value.exponent.natAbs

/-- The positive reals that round to a double, as an exact interval around it. The three bounds are
numerators over one common denominator. -/
structure Interval where
  low : Nat
  middle : Nat
  high : Nat
  denominator : Nat
  /-- Both ends belong to the interval. -/
  closed : Bool

/-- The interval of `significand · 2 ^ exponent`. Below a power of two the next double is closer. -/
def Interval.of (significand : Nat) (exponent : Int) : Interval :=
  let closer := significand == Nat.pow 2 52 && exponent > -1074
  let up := Nat.pow 2 (exponent - 2).toNat
  { low := (4 * significand - (if closer then 1 else 2)) * up
    middle := 4 * significand * up
    high := (4 * significand + 2) * up
    denominator := Nat.pow 2 (2 - exponent).toNat
    closed := significand % 2 == 0 }

/-- Which of two decimals is taken for a number in the middle between them. -/
inductive Tie where
  /-- The larger one. -/
  | up
  /-- The one with an even last digit. -/
  | even
  deriving Repr, DecidableEq

/-- Whether a number in the middle goes down to the digits below it. -/
def Tie.goesDown (tie : Tie) (below : Nat) : Bool :=
  match tie with
  | up => false
  | even => below % 2 == 0

/-- A multiple of a power of ten in the interval, the nearer one if there are two. -/
def Interval.gridPoint? (interval : Interval) (tie : Tie) (exponent : Int) : Option Nat :=
  let top := Nat.pow 10 (-exponent).toNat
  let unit := interval.denominator * Nat.pow 10 exponent.toNat
  let inside (point : Nat) : Bool :=
    let at_ := point * unit
    if interval.closed then interval.low * top ≤ at_ && at_ ≤ interval.high * top
    else interval.low * top < at_ && at_ < interval.high * top
  let below := interval.middle * top / unit
  let remainder := interval.middle * top % unit
  match inside below, inside (below + 1) with
  | true, true =>
    if 2 * remainder < unit || (2 * remainder == unit && tie.goesDown below) then some below
    else some (below + 1)
  | true, false => some below
  | false, true => some (below + 1)
  | false, false => none

/-- Try ever finer grids until one has a point in the interval. -/
def Interval.search (interval : Interval) (tie : Tie) : (steps : Nat) → (exponent : Int) → Decimal
  | 0, exponent => ⟨0, exponent⟩
  | steps + 1, exponent =>
    match interval.gridPoint? tie exponent with
    | some digits => ⟨digits, exponent⟩
    | none => interval.search tie steps (exponent - 1)

/-- The shortest decimal that reads back as a positive double. -/
def shortest (tie : Tie) (significand : Nat) (exponent : Int) : Decimal :=
  let interval := Interval.of significand exponent
  interval.search tie 700 (digitCount (interval.middle / interval.denominator) : Int)

/-- Digits with a point at the right place and never an exponent. -/
def positional (value : Decimal) : String :=
  let digits := Nat.toDigits 10 value.digits
  if 0 ≤ value.exponent then
    String.ofList (digits ++ List.replicate value.exponent.toNat '0')
  else
    let places := (-value.exponent).toNat
    if places < digits.length then
      String.ofList (digits.take (digits.length - places) ++ '.' :: digits.drop (digits.length - places))
    else String.ofList ('0' :: '.' :: List.replicate (places - digits.length) '0' ++ digits)

end Decimal

/-- A double in its shortest positional form; from the middle it goes up. -/
def renderPositional (x : Float) : String :=
  match Binary.ofFloat? x with
  | none => if x.isNaN then "NaN" else if x < 0 then "-inf" else "inf"
  | some value =>
    let magnitude := if value.significand == 0 then "0"
      else (Decimal.shortest .up value.significand value.exponent).positional
    if value.negative then "-" ++ magnitude else magnitude

end ScriptLint.Number
