import ScopedScript.Decimal.Binary

/-!
# The fewest digits that read back

The decimals that read back as a given float form an interval around it. For one digit, two
digits and so on, the two neighbours of the float on that decimal grid are tried in exact
arithmetic; the first grid with a neighbour inside the interval gives the digits.
-/

namespace ScopedScript.Decimal

/-- The number `digits * 10 ^ exponent`. -/
structure Scaled where
  digits : Nat
  exponent : Int
deriving DecidableEq, Repr

/-- Which of two equally near neighbours is taken. -/
inductive Tie
  | up
  | even
deriving DecidableEq, Repr

/-- How many decimal digits a natural number has. -/
def digitCount (n : Nat) : Nat := (Nat.toDigits 10 n).length

/-- The exponent `e` with `10 ^ e ≤ num / den < 10 ^ (e + 1)`, for a positive fraction. -/
def magnitude (num den : Nat) : Int :=
  if den ≤ num then (digitCount (num / den) : Int) - 1
  else -(digitCount ((den + num - 1) / num - 1) : Int)

/-- The fraction times `10 ^ shift`. -/
def shifted (num den : Nat) (shift : Int) : Nat × Nat :=
  if 0 ≤ shift then (num * Nat.pow 10 shift.toNat, den)
  else (num, den * Nat.pow 10 (-shift).toNat)

/-- Three fractions over one denominator: the ends of the interval and the value between them. -/
structure Interval where
  low : Nat
  value : Nat
  high : Nat
  den : Nat
  closed : Bool
deriving Repr

/-- The reals that round to `mantissa * 2 ^ exponent`. The gap below a power of two is half the
gap above it, unless the exponent is the least one. -/
def Binary.interval (b : Binary) : Interval :=
  let narrow := b.mantissa = Nat.pow 2 52 ∧ -1074 < b.exponent
  let e := b.exponent - 2
  let scale (n : Nat) := (Binary.fraction n e).1
  { low := scale (4 * b.mantissa - if narrow then 1 else 2)
    value := scale (4 * b.mantissa)
    high := scale (4 * b.mantissa + 2)
    den := (Binary.fraction 1 e).2
    closed := b.mantissa % 2 == 0 }

namespace Interval

/-- Whether `d / 10 ^ shift` lies in the interval. -/
def contains (i : Interval) (d : Nat) (shift : Int) : Bool :=
  let (low, den) := shifted i.low i.den shift
  let (high, _) := shifted i.high i.den shift
  let x := d * den
  if i.closed then low ≤ x && x ≤ high else low < x && x < high

/-- The neighbour on the grid of `10 ^ -shift` that lies in the interval, the nearer one of
two. -/
def neighbour? (i : Interval) (tie : Tie) (shift : Int) : Option Nat :=
  let (num, den) := shifted i.value i.den shift
  let below := num / den
  let rest := num % den
  match i.contains below shift, i.contains (below + 1) shift with
  | true, false => some below
  | false, true => some (below + 1)
  | false, false => none
  | true, true =>
    if 2 * rest < den then some below
    else if den < 2 * rest then some (below + 1)
    else match tie with
      | .up => some (below + 1)
      | .even => some (if below % 2 = 0 then below else below + 1)

/-- Tries the grids with `n`, `n + 1`, … digits. -/
def search (i : Interval) (tie : Tie) (top : Int) : Nat → Nat → Option Scaled
  | 0, _ => none
  | fuel + 1, n =>
    let shift := (n : Int) - 1 - top
    match i.neighbour? tie shift with
    | some d => some ⟨d, -shift⟩
    | none => search i tie top fuel (n + 1)

end Interval

/-- Moves trailing zeros of the digits into the exponent. -/
def Scaled.normal : Nat → Scaled → Scaled
  | 0, s => s
  | fuel + 1, s =>
    if s.digits ≠ 0 ∧ s.digits % 10 = 0 then normal fuel ⟨s.digits / 10, s.exponent + 1⟩ else s

/-- The fewest digits that read back as the magnitude; seventeen always suffice. -/
def Binary.shortest (b : Binary) (tie : Tie) : Scaled :=
  if b.mantissa = 0 then ⟨0, 0⟩
  else
    let i := b.interval
    ((i.search tie (magnitude i.value i.den) 17 1).getD ⟨b.truncated, 0⟩).normal 20

end ScopedScript.Decimal
