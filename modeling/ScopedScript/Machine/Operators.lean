import ScopedScript.Decimal.Reading
import ScopedScript.Machine.Fault
import ScopedScript.Text.Blank

/-!
# Operators

Integer arithmetic wraps at 64 bits. When the operands are known to be of a static type they are
taken as they stand; when one of them is of type `any` both are looked at inside their boxes, and
the result of an arithmetic operator is boxed again.
-/

namespace ScopedScript

namespace Value

mutual

/-- Equality of values that looks through boxes, also those around the fields of structs. -/
def equals : Value → Value → Bool
  | any a, b => equals a b
  | struct t fs, b =>
    match b.unboxed with
    | struct u gs => t == u && equalsList fs gs
    | _ => false
  | a, b => identical a b.unboxed

def equalsList : List Value → List Value → Bool
  | [], [] => true
  | a :: as, b :: bs => equals a b && equalsList as bs
  | _, _ => false

end

end Value

namespace Operator

/-- Exponentiation by squaring over this many binary digits of the exponent. -/
def power (base : Int64) (exponent : Nat) : (digits : Nat) → Int64
  | 0 => 1
  | digits + 1 =>
    let rest := power (base * base) (exponent / 2) digits
    if exponent % 2 = 1 then base * rest else rest

/-- The operator on two integers. -/
def onInts (op : ArithOp) (x y : Int64) : Except FaultCause Int64 :=
  match op with
  | .add => return x + y
  | .sub => return x - y
  | .mul => return x * y
  | .div => if y = 0 then throw .divisionByZero else return x / y
  | .mod => if y = 0 then throw .divisionByZero else return x % y
  | .pow => if y < 0 then throw (.negativeExponent y) else return power x y.toInt.toNat 64
  | .shl => if y < 0 ∨ 64 ≤ y then throw (.shiftOutOfRange y) else return x <<< y
  | .shr => if y < 0 ∨ 64 ≤ y then throw (.shiftOutOfRange y) else return x >>> y

/-- The operator on two floats; shifts have none. -/
def onFloats (op : ArithOp) (x y : Float) : Option Float :=
  match op with
  | .add => some (x + y)
  | .sub => some (x - y)
  | .mul => some (x * y)
  | .div => some (x / y)
  | .mod => some (Decimal.floatRemainder x y)
  | .pow => some (x.pow y)
  | .shl | .shr => none

/-- Copies of a text; none for a count that is not positive. -/
def repeated (s : String) (count : Int64) : Except FaultCause String :=
  let bytes := s.utf8ByteSize * count.toInt.toNat
  if maxTextBytes < bytes then throw (.textTooLong bytes)
  else if s.isEmpty then return ""
  else return Nat.repeat (· ++ s) count.toInt.toNat ""

/-- The operator on two values that are in no box; `none` when it has no such operands. -/
def apply (op : ArithOp) : Value → Value → Except FaultCause (Option Value)
  | .int x, .int y => return some (.int (← onInts op x y))
  | .float x, .float y => return (onFloats op x y).map .float
  | .string x, .string y => return if op = .add then some (.string (x ++ y)) else none
  | .string s, .int n =>
    if op = .mul then return some (.string (← repeated s n)) else return none
  | _, _ => return none

def arith (m : Module) (op : ArithOp) (kind : OperandKind) (a b : Value) :
    Except FaultCause Value :=
  match kind with
  | .dynamic => do
    match ← apply op a.unboxed b.unboxed with
    | some v => return v.boxed
    | none => throw (.mistype (.operands (.arith op) (a.typeName m) (b.typeName m)))
  | kind => do
    match ← apply op a b with
    | some v => return v
    | none => throw (.malformed (.operands op kind (a.typeName m) (b.typeName m)))

def negate (m : Module) (kind : OperandKind) (v : Value) : Except FaultCause Value :=
  match v.unboxed, kind with
  | .int n, .dynamic => return .any (.int (-n))
  | .float x, .dynamic => return .any (.float (-x))
  | .int n, _ => return .int (-n)
  | .float x, _ => return .float (-x)
  | other, .dynamic => throw (.mistype (.negation (other.typeName m)))
  | other, _ => throw (.malformed (.negation (other.typeName m)))

/-- How two floats compare; NaN compares with nothing. -/
def compareFloats? (x y : Float) : Option Ordering :=
  if x < y then some .lt
  else if x == y then some .eq
  else if y < x then some .gt
  else none

/-- How two values that are in no box compare; the outer `none` means that they never do. -/
def compare? : Value → Value → Option (Option Ordering)
  | .int x, .int y => some (some (compare x y))
  | .float x, .float y => some (compareFloats? x y)
  | .string x, .string y => some (some (compare x y))
  | _, _ => none

def order (m : Module) (op : OrderOp) (kind : OperandKind) (a b : Value) :
    Except FaultCause Bool :=
  match compare? a.unboxed b.unboxed with
  | some ordering => return ordering.any op.holds
  | none =>
    match kind with
    | .dynamic => throw (.mistype (.operands (.order op) (a.typeName m) (b.typeName m)))
    | _ => throw (.malformed (.ordering op (a.typeName m) (b.typeName m)))

/-- The integer that a text stands for, blanks around it aside. -/
def readInt (s : String) : Except FaultCause Value :=
  match Decimal.readWord? (Text.trimmed s.toList) with
  | some n => return .int n
  | none => throw (.unreadable s .int)

/-- The float that a text stands for, blanks around it aside. -/
def readFloat (s : String) : Except FaultCause Value :=
  match Decimal.readFloat? (Text.trimmed s.toList) with
  | some x => return .float x
  | none => throw (.unreadable s .float)

/-- Converts a value, looking through boxes. Every value has a text; the other targets take the
values of `int`, `float`, `bool` and `string`. -/
def convert (m : Module) (target : CastTarget) (v : Value) : Except FaultCause Value :=
  match target, v.unboxed with
  | .string, v => return .string (v.text m)
  | .int, .int n => return .int n
  | .int, .float x => return .int (Decimal.truncateToWord x)
  | .int, .bool b => return .int (if b then 1 else 0)
  | .int, .string s => readInt s
  | .float, .int n => return .float (n.toFloat)
  | .float, .float x => return .float x
  | .float, .bool b => return .float (if b then 1.0 else 0.0)
  | .float, .string s => readFloat s
  | .bool, .int n => return .bool (0 < n)
  | .bool, .float x => return .bool (0.0 < x)
  | .bool, .bool b => return .bool b
  | .bool, .string s => return .bool !s.isEmpty
  | target, other => throw (.mistype (.conversion (other.typeName m) target))

end Operator

end ScopedScript
