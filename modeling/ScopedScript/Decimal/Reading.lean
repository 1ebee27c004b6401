import ScopedScript.Decimal.Integer

/-!
# Floats read from text

A numeral is split into whole digits, fraction digits and an exponent. `nearest` gives the float
nearest to it; `staged` gives the float that a 64-bit significand and one scaling by a power of
ten give, which may differ from the nearest one in the last place.
-/

namespace ScopedScript.Decimal

/-- A numeral without its sign: the digits around the point and the power of ten. -/
structure Numeral where
  whole : List Char
  fraction : List Char
  exponent : Int
deriving Repr

/-- The float nearest to `digits * 10 ^ exponent`. Exponents far outside the range of floats are
decided by the number of digits alone. -/
def nearestScaled (digits : Nat) (exponent : Int) : Float :=
  if digits = 0 then 0.0
  else
    let top : Int := ((Nat.toDigits 10 digits).length : Int) + exponent
    if 310 < top then 1.0 / 0.0
    else if top < -330 then 0.0
    else if 0 ≤ exponent then Float.ofScientific digits false exponent.toNat
    else Float.ofScientific digits true (-exponent).toNat

def Numeral.nearest (n : Numeral) : Float :=
  nearestScaled (value (n.whole ++ n.fraction)) (n.exponent - n.fraction.length)

/-- Splits `e`, an optional sign and digits off the front; absent, the exponent is zero. -/
def splitExponent : List Char → Option (Int × List Char)
  | c :: cs =>
    if c = 'e' ∨ c = 'E' then
      let (negative, cs) := match cs with
        | '+' :: r => (false, r)
        | '-' :: r => (true, r)
        | r => (false, r)
      let digits := cs.takeWhile Char.isDigit
      if digits.isEmpty then none
      else
        let n : Int := value digits
        some (if negative then -n else n, cs.dropWhile Char.isDigit)
    else some (0, c :: cs)
  | [] => some (0, [])

/-- Reads digits with an optional point and exponent that make up the whole text; one digit on
either side of the point is enough. -/
def readNumeral? (cs : List Char) : Option Numeral :=
  let whole := cs.takeWhile Char.isDigit
  let rest := cs.dropWhile Char.isDigit
  let (fraction, rest) := match rest with
    | '.' :: r => (r.takeWhile Char.isDigit, r.dropWhile Char.isDigit)
    | r => ([], r)
  if whole.isEmpty && fraction.isEmpty then none
  else match splitExponent rest with
    | some (exponent, []) => some ⟨whole, fraction, exponent⟩
    | _ => none

/-- Reads a magnitude: a numeral, or a name of infinity or NaN in any case. -/
def readMagnitude? (cs : List Char) : Option Float :=
  match String.ofList (cs.map Char.toLower) with
  | "inf" | "infinity" => some (1.0 / 0.0)
  | "nan" => some (0.0 / 0.0)
  | _ => (readNumeral? cs).map Numeral.nearest

/-- Reads a float after at most one sign. -/
def readFloat? : List Char → Option Float
  | '+' :: cs => readMagnitude? cs
  | '-' :: cs => (readMagnitude? cs).map fun x => -x
  | cs => readMagnitude? cs

/-- Appends a digit to a significand, unless the result would not fit 64 bits. -/
def extend? (significand : Nat) (c : Char) : Option Nat :=
  let n := significand * 10 + digitValue c
  if n < Nat.pow 2 64 then some n else none

/-- Takes digits into the significand until one does not fit. Returns the significand, how many
digits were taken, and the digits left. -/
def absorb (significand taken : Nat) : List Char → Nat × Nat × List Char
  | [] => (significand, taken, [])
  | c :: cs =>
    match extend? significand c with
    | some n => absorb n (taken + 1) cs
    | none => (significand, taken, c :: cs)

/-- Divides by `10 ^ 308` as long as the exponent is below the table of powers, then scales
once. No float results when the magnitude overflows. -/
def scaleOnce : Nat → Float → Int → Option Float
  | 0, _, _ => some 0.0
  | fuel + 1, x, e =>
    if e.natAbs ≤ 308 then
      let power := Float.ofScientific 1 false e.natAbs
      if 0 ≤ e then
        let y := x * power
        if y == 1.0 / 0.0 then none else some y
      else some (x / power)
    else if x == 0.0 then some x
    else if 0 ≤ e then none
    else scaleOnce fuel (x / Float.ofScientific 1 false 308) (e + 308)

/-- The float of a 64-bit significand scaled by a power of ten; digits beyond the significand are
dropped, those before the point raising the exponent. -/
def Numeral.staged (n : Numeral) : Option Float :=
  let (significand, _, dropped) := absorb 0 0 n.whole
  let (significand, taken, _) := absorb significand 0 n.fraction
  let bound : Int := 2147483647
  if bound < n.exponent.natAbs then
    if significand ≠ 0 ∧ 0 < n.exponent then none else some 0.0
  else
    let start : Int := (dropped.length : Int) - (taken : Int)
    scaleOnce 40 (Float.ofNat significand) (start + n.exponent)

end ScopedScript.Decimal
