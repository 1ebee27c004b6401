import ScopedScript.Decimal.Layout
import ScopedScript.Decimal.Reading

/-!
# JSON values

Numbers keep the distinction that readers need: an integer numeral, a numeral with a point or an
exponent, or one whose magnitude no float holds.
-/

namespace ScopedScript

inductive Json
  | null
  | bool (value : Bool)
  | int (value : Int)
  | real (value : Float)
  /-- A numeral beyond the range of floats. -/
  | unbounded
  | text (value : String)
  /-- A string whose escapes name no sequence of characters, or an object with such a name. -/
  | garbled
  | list (items : List Json)
  | object (members : List (String × Json))
deriving Repr, Inhabited

namespace Json

/-- A float as a value; the format has no infinities and no NaN. -/
def ofFloat (x : Float) : Json :=
  match Decimal.parts x with
  | .finite _ => .real x
  | _ => .null

def ofNat (n : Nat) : Json := .int n

def ofOption (f : α → Json) : Option α → Json
  | none => .null
  | some a => f a

def ofList (f : α → Json) (items : List α) : Json := .list (items.map f)

/-- The value of the first member of this name. -/
def get? (name : String) : Json → Option Json
  | .object members => members.lookup name
  | _ => none

def toBool? : Json → Option Bool
  | .bool b => some b
  | _ => none

def toText? : Json → Option String
  | .text s => some s
  | _ => none

def toItems? : Json → Option (List Json)
  | .list items => some items
  | _ => none

def toInt? : Json → Option Int
  | .int n => some n
  | _ => none

def toNat? : Json → Option Nat
  | .int n => if 0 ≤ n then some n.toNat else none
  | _ => none

/-- Integers that fit a 64-bit word are converted exactly as far as floats go; longer ones like
any other numeral. -/
def toFloat? : Json → Option Float
  | .real x => some x
  | .int n =>
    if n.natAbs < Nat.pow 2 64 then some (Float.ofInt n)
    else
      let magnitude := (Decimal.Numeral.mk (Nat.toDigits 10 n.natAbs) [] 0).staged
      magnitude.map fun x => if n < 0 then -x else x
  | _ => none

end Json

end ScopedScript
