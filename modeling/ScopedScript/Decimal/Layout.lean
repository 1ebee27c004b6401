import ScopedScript.Decimal.Integer
import ScopedScript.Decimal.Shortest

/-!
# Floats as text

Every text of a float is its shortest digits in some layout. A layout says which magnitudes are
written positionally, whether a whole number keeps a fraction, and how an exponent looks.
-/

namespace ScopedScript.Decimal

structure Layout where
  tie : Tie
  /-- Least and greatest decimal exponent of the leading digit that is written positionally;
  `none` when every magnitude is. -/
  positional : Option (Int × Int)
  /-- Whether a positional whole number ends in `.0`. -/
  keepsFraction : Bool
  /-- Whether an exponent that is not negative has a sign too. -/
  signsExponent : Bool

/-- Every digit is written out: `1`, `0.001`. -/
def Layout.plain : Layout := ⟨.up, none, false, false⟩

/-- Literals in listings: `1.0`, `0.0001`, `1e16`. -/
def Layout.literal : Layout := ⟨.up, some (-4, 15), true, false⟩

/-- Numbers of a JSON text: `1.0`, `0.00001`, `1e+16`, `1e-7`. -/
def Layout.json : Layout := ⟨.even, some (-5, 15), true, true⟩

def zeros (n : Nat) : String := String.ofList (List.replicate n '0')

/-- `digits * 10 ^ exponent` without an exponent mark. -/
def Scaled.positional (s : Scaled) (keepsFraction : Bool) : String :=
  let digits := Nat.toDigits 10 s.digits
  if 0 ≤ s.exponent then
    String.ofList digits ++ zeros s.exponent.toNat ++ (if keepsFraction then ".0" else "")
  else
    let places := (-s.exponent).toNat
    if places < digits.length then
      String.ofList (digits.take (digits.length - places)) ++ "." ++
        String.ofList (digits.drop (digits.length - places))
    else "0." ++ zeros (places - digits.length) ++ String.ofList digits

/-- One digit before the point and the exponent after `e`. -/
def Scaled.exponential (s : Scaled) (top : Int) (signsExponent : Bool) : String :=
  let mark := if signsExponent && 0 ≤ top then "e+" else "e"
  match Nat.toDigits 10 s.digits with
  | [] => ""
  | [d] => String.ofList [d] ++ mark ++ intText top
  | d :: rest => String.ofList [d] ++ "." ++ String.ofList rest ++ mark ++ intText top

def Layout.magnitude (l : Layout) (b : Binary) : String :=
  let s := b.shortest l.tie
  let top : Int := (digitCount s.digits : Int) - 1 + s.exponent
  match l.positional with
  | none => s.positional l.keepsFraction
  | some (least, greatest) =>
    if s.digits = 0 ∨ (least ≤ top ∧ top ≤ greatest) then s.positional l.keepsFraction
    else s.exponential top l.signsExponent

def Layout.text (l : Layout) (x : Float) : String :=
  match parts x with
  | .nan => "NaN"
  | .infinite negative => if negative then "-inf" else "inf"
  | .finite b => (if b.negative then "-" else "") ++ l.magnitude b

/-- A float as programs print it: whole numbers are written in full with one decimal, all else
with the fewest digits that read back. -/
def floatText (x : Float) : String :=
  match parts x with
  | .finite b =>
    if b.isWhole then (if b.negative then "-" else "") ++ natText b.truncated ++ ".0"
    else Layout.plain.text x
  | _ => Layout.plain.text x

end ScopedScript.Decimal
