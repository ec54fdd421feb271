/-!
# Digest of a text

The 64-bit hash that identifies a text in the caches: the xxHash function with seed zero over the
UTF-8 bytes of the text followed by one byte 255.
-/

namespace ScriptLint.Digest

def prime1 : UInt64 := 0x9E3779B185EBCA87
def prime2 : UInt64 := 0xC2B2AE3D27D4EB4F
def prime3 : UInt64 := 0x165667B19E3779F9
def prime4 : UInt64 := 0x85EBCA77C2B2AE63
def prime5 : UInt64 := 0x27D4EB2F165667C5

def rotate (word : UInt64) (count : UInt64) : UInt64 :=
  (word <<< count) ||| (word >>> (64 - count))

/-- Little-endian value of some bytes. -/
def wordOf : List UInt8 → UInt64
  | [] => 0
  | b :: bs => b.toUInt64 ||| (wordOf bs <<< 8)

def mixLane (lane word : UInt64) : UInt64 :=
  rotate (lane + word * prime2) 31 * prime1

/-- The four running lanes of a long input. -/
structure Lanes where
  first : UInt64
  second : UInt64
  third : UInt64
  fourth : UInt64

namespace Lanes

def initial : Lanes := ⟨prime1 + prime2, prime2, 0, 0 - prime1⟩

/-- Take in 32 bytes. -/
def absorb (lanes : Lanes) (stripe : List UInt8) : Lanes where
  first := mixLane lanes.first (wordOf (stripe.take 8))
  second := mixLane lanes.second (wordOf ((stripe.drop 8).take 8))
  third := mixLane lanes.third (wordOf ((stripe.drop 16).take 8))
  fourth := mixLane lanes.fourth (wordOf ((stripe.drop 24).take 8))

def mergeLane (hash lane : UInt64) : UInt64 :=
  (hash ^^^ mixLane 0 lane) * prime1 + prime4

def merge (lanes : Lanes) : UInt64 :=
  let hash := rotate lanes.first 1 + rotate lanes.second 7 + rotate lanes.third 12 +
    rotate lanes.fourth 18
  mergeLane (mergeLane (mergeLane (mergeLane hash lanes.first) lanes.second) lanes.third) lanes.fourth

/-- Take in all whole stripes of 32 bytes; the rest is shorter. -/
def absorbAll (lanes : Lanes) (bytes : List UInt8) : Lanes × List UInt8 :=
  if 32 ≤ bytes.length then absorbAll (lanes.absorb (bytes.take 32)) (bytes.drop 32)
  else (lanes, bytes)
termination_by bytes.length

end Lanes

/-- Take in the bytes after the last whole stripe, eight, four and one at a time. -/
def absorbTail (hash : UInt64) (bytes : List UInt8) : UInt64 :=
  if 8 ≤ bytes.length then
    absorbTail (rotate (hash ^^^ mixLane 0 (wordOf (bytes.take 8))) 27 * prime1 + prime4)
      (bytes.drop 8)
  else if 4 ≤ bytes.length then
    absorbTail (rotate (hash ^^^ (wordOf (bytes.take 4) * prime1)) 23 * prime2 + prime3)
      (bytes.drop 4)
  else
    match bytes with
    | [] => hash
    | b :: rest => absorbTail (rotate (hash ^^^ (b.toUInt64 * prime5)) 11 * prime1) rest
termination_by bytes.length

def finish (hash : UInt64) : UInt64 :=
  let hash := (hash ^^^ (hash >>> 33)) * prime2
  let hash := (hash ^^^ (hash >>> 29)) * prime3
  hash ^^^ (hash >>> 32)

def ofBytes (bytes : List UInt8) : UInt64 :=
  let (lanes, rest) := Lanes.initial.absorbAll bytes
  let hash := if 32 ≤ bytes.length then lanes.merge else prime5
  finish (absorbTail (hash + UInt64.ofNat bytes.length) rest)

def ofText (text : String) : UInt64 :=
  ofBytes (text.toUTF8.toList ++ [255])

/-- The last `width` hexadecimal digits of a number, in lower case. -/
def hexDigits : (width : Nat) → Nat → List Char
  | 0, _ => []
  | width + 1, n => hexDigits width (n / 16) ++ Nat.toDigits 16 (n % 16)

def render (word : UInt64) : String :=
  String.ofList (hexDigits 16 word.toNat)

end ScriptLint.Digest
