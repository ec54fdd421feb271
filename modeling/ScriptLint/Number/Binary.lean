/-!
# Binary form of floating-point numbers

A finite double is `± significand · 2 ^ exponent` with whole numbers. This is the form in which exact
arithmetic on doubles is done.
-/

namespace ScriptLint.Number

/-- The exact value of a finite double. -/
structure Binary where
  negative : Bool
  significand : Nat
  exponent : Int
  deriving Repr, DecidableEq

namespace Binary

/-- Read off the fields of a double; `none` for infinities and values that are no numbers. -/
def ofFloat? (x : Float) : Option Binary :=
  let bits := x.toBits.toNat
  let negative := bits / Nat.pow 2 63 == 1
  let biased : Nat := bits / Nat.pow 2 52 % Nat.pow 2 11
  let fraction : Nat := bits % Nat.pow 2 52
  if biased == 2047 then none
  else if biased == 0 then some ⟨negative, fraction, -1074⟩
  else some ⟨negative, fraction + Nat.pow 2 52, (biased : Int) - 1075⟩

/-- The double of a value that one can hold exactly. -/
def toFloat (value : Binary) : Float :=
  let magnitude := Float.scaleB (Float.ofNat value.significand) value.exponent
  if value.negative then -magnitude else magnitude

end Binary

def infinity : Float := Float.ofBits 0x7FF0000000000000

def notANumber : Float := Float.ofBits 0x7FF8000000000000

/-- The remainder of division toward zero, which is always exact and has the sign of the dividend. -/
def remainder (dividend divisor : Float) : Float :=
  match Binary.ofFloat? dividend, Binary.ofFloat? divisor with
  | some top, some bottom =>
    if bottom.significand == 0 then notANumber
    else
      let exponent := min top.exponent bottom.exponent
      let scaled (value : Binary) : Nat := value.significand * Nat.pow 2 (value.exponent - exponent).toNat
      Binary.toFloat ⟨top.negative, scaled top % scaled bottom, exponent⟩
  | some _, none => if divisor.isNaN then notANumber else dividend
  | none, _ => notANumber

end ScriptLint.Number
