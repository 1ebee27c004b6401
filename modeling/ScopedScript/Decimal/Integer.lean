/-!
# Integers as decimal text

Naturals and 64-bit integers are written without leading zeros; they are read from any non-empty
run of decimal digits, an integer after at most one sign.
-/

namespace ScopedScript.Decimal

/-- The value of a digit character. -/
def digitValue (c : Char) : Nat := c.toNat - '0'.toNat

/-- The number that a run of digits stands for. -/
def value (cs : List Char) : Nat :=
  cs.foldl (fun n c => 10 * n + digitValue c) 0

def natText (n : Nat) : String := String.ofList (Nat.toDigits 10 n)

def intText (n : Int) : String :=
  if n < 0 then "-" ++ natText n.natAbs else natText n.natAbs

/-- Reads a non-empty run of digits. -/
def readNat? (cs : List Char) : Option Nat :=
  if cs.isEmpty || !cs.all Char.isDigit then none else some (value cs)

/-- Reads digits after at most one sign. -/
def readInt? : List Char → Option Int
  | '+' :: cs => (readNat? cs).map Int.ofNat
  | '-' :: cs => (readNat? cs).map fun n => -Int.ofNat n
  | cs => (readNat? cs).map Int.ofNat

/-- The 64-bit word of an integer that has one. -/
def toWord? (n : Int) : Option Int64 :=
  if Int64.minValue.toInt ≤ n ∧ n ≤ Int64.maxValue.toInt then some (Int64.ofInt n) else none

def wordText (n : Int64) : String := intText n.toInt

def readWord? (cs : List Char) : Option Int64 := (readInt? cs).bind toWord?

theorem toWord?_toInt (n : Int64) : toWord? n.toInt = some n := by
  have lower := n.minValue_le_toInt
  have upper := n.toInt_le
  simp only [toWord?, Int64.ofInt_toInt]
  rw [if_pos]
  exact ⟨lower, upper⟩

end ScopedScript.Decimal
