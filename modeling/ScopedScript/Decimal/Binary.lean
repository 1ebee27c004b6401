/-!
# The binary parts of a float

A finite float is an integer times a power of two. The parts are read off the bits, so that
everything said about digits is said in exact arithmetic.
-/

namespace ScopedScript.Decimal

/-- The magnitude `mantissa * 2 ^ exponent` with a sign. -/
structure Binary where
  negative : Bool
  mantissa : Nat
  exponent : Int
deriving DecidableEq, Repr

inductive FloatParts
  | nan
  | infinite (negative : Bool)
  | finite (parts : Binary)
deriving DecidableEq, Repr

/-- The parts that a bit pattern of the 64-bit format stands for. -/
def partsOfBits (bits : Nat) : FloatParts :=
  let negative := bits / Nat.pow 2 63 % 2 == 1
  let exponent : Nat := bits / Nat.pow 2 52 % Nat.pow 2 11
  let fraction := bits % Nat.pow 2 52
  if exponent = 2047 then
    if fraction = 0 then .infinite negative else .nan
  else if exponent = 0 then .finite ⟨negative, fraction, -1074⟩
  else .finite ⟨negative, Nat.pow 2 52 + fraction, (exponent : Int) - 1075⟩

def parts (x : Float) : FloatParts := partsOfBits x.toBits.toNat

namespace Binary

/-- The fraction `num / den` equal to `m * 2 ^ e`. -/
def fraction (m : Nat) (e : Int) : Nat × Nat :=
  if 0 ≤ e then (m * Nat.pow 2 e.toNat, 1) else (m, Nat.pow 2 (-e).toNat)

/-- The magnitude truncated toward zero. -/
def truncated (b : Binary) : Nat :=
  let (num, den) := fraction b.mantissa b.exponent
  num / den

/-- Whether the magnitude is a whole number. -/
def isWhole (b : Binary) : Bool :=
  let (num, den) := fraction b.mantissa b.exponent
  num % den == 0

/-- The float of these parts, when the format has one. -/
def toFloat (b : Binary) : Float :=
  let magnitude := (Float.ofNat b.mantissa).scaleB b.exponent
  if b.negative then -magnitude else magnitude

/-- The remainder of two magnitudes, with the sign of the dividend and an exponent common to
both. -/
def remainder (a b : Binary) : Binary :=
  let e := min a.exponent b.exponent
  let x := a.mantissa * Nat.pow 2 (a.exponent - e).toNat
  let y := b.mantissa * Nat.pow 2 (b.exponent - e).toNat
  ⟨a.negative, x % y, e⟩

end Binary

/-- The remainder of a division truncated toward zero, which is always exact. -/
def floatRemainder (x y : Float) : Float :=
  match parts x, parts y with
  | .finite a, .finite b =>
    if b.mantissa = 0 then 0.0 / 0.0
    else (a.remainder b).toFloat
  | .finite _, .infinite _ => x
  | _, _ => 0.0 / 0.0

/-- The integer part of a float; infinities clamp to the ends of the range and NaN is zero. -/
def truncateToWord (x : Float) : Int64 :=
  match parts x with
  | .nan => 0
  | .infinite negative => if negative then Int64.minValue else Int64.maxValue
  | .finite b =>
    let n : Int := if b.negative then -(b.truncated : Int) else b.truncated
    if n < Int64.minValue.toInt then Int64.minValue
    else if Int64.maxValue.toInt < n then Int64.maxValue
    else Int64.ofInt n

end ScopedScript.Decimal
