import ScopedScript.Decimal.Layout
import ScopedScript.Machine.Builtin

/-!
# The standard built-ins

Output, types and texts of values, and numbers. Arguments are looked at inside their boxes. Each
built-in checks its own arguments, since callers that bypass the checker may pass any.
-/

namespace ScopedScript.Builtin

/-- An answer without output. -/
def silent (answer : Except String Value) : Reply := ⟨"", answer⟩

/-- Takes the only argument out of its boxes. -/
def oneArg (name : String) : List Value → Except String Value
  | [v] => .ok v.unboxed
  | args => .error (name ++ "() expects 1 argument, got " ++ Decimal.natText args.length)

def expectInt (name : String) (v : Value) : Except String Int64 :=
  match v.unboxed with
  | .int n => .ok n
  | _ => .error (name ++ "() expects an int")

def expectFloat (name : String) (v : Value) : Except String Float :=
  match v.unboxed with
  | .float x => .ok x
  | _ => .error (name ++ "() expects a float")

def expectString (name : String) (v : Value) : Except String String :=
  match v.unboxed with
  | .string s => .ok s
  | _ => .error (name ++ "() expects a string")

/-- Writes the text of the argument followed by an ending. -/
def writer (name ending : String) : Builtin where
  name
  params := [.any]
  ret := .void
  call m args :=
    match oneArg name args with
    | .ok v => ⟨v.text m ++ ending, .ok .null⟩
    | .error e => silent (.error e)

def print : Builtin := writer "print" ""

def println : Builtin := writer "println" "\n"

def typeOf : Builtin where
  name := "typeof"
  params := [.any]
  ret := .string
  call m args := silent do
    let v ← oneArg "typeof" args
    return .string (v.typeName m)

def toText : Builtin where
  name := "to_string"
  params := [.any]
  ret := .string
  call m args := silent do
    let v ← oneArg "to_string" args
    return .string (v.text m)

/-- The number of characters of a text. -/
def len : Builtin where
  name := "len"
  params := [.string]
  ret := .int
  call _ args := silent do
    let s ← expectString "len" (← oneArg "len" args)
    return .int (Int64.ofNat s.length)

def assert : Builtin where
  name := "assert"
  params := [.bool, .string]
  ret := .void
  call _ args := silent <|
    match args with
    | [condition, message] =>
      match condition.unboxed with
      | .bool true => return .null
      | .bool false => do throw ("assertion failed: " ++ (← expectString "assert" message))
      | _ => throw "assert() expects a bool condition"
    | _ => throw ("assert() expects 2 arguments, got " ++ Decimal.natText args.length)

/-- The magnitude of an integer; that of the least one wraps to itself. -/
def abs : Builtin where
  name := "abs"
  params := [.int]
  ret := .int
  call _ args := silent do
    let n ← expectInt "abs" (← oneArg "abs" args)
    return .int (if n < 0 then -n else n)

def sqrt : Builtin where
  name := "sqrt"
  params := [.float]
  ret := .float
  call _ args := silent do
    let x ← expectFloat "sqrt" (← oneArg "sqrt" args)
    if x < 0.0 then throw ("sqrt() of negative number " ++ Decimal.Layout.plain.text x)
    return .float x.sqrt

def toFloat : Builtin where
  name := "to_float"
  params := [.int]
  ret := .float
  call _ args := silent do
    let n ← expectInt "to_float" (← oneArg "to_float" args)
    return .float (n.toFloat)

/-- The integer part of a finite float. -/
def toInt : Builtin where
  name := "to_int"
  params := [.float]
  ret := .int
  call _ args := silent do
    let x ← expectFloat "to_int" (← oneArg "to_int" args)
    match Decimal.parts x with
    | .finite _ => return .int (Decimal.truncateToWord x)
    | _ => throw ("to_int() of non-finite number " ++ Decimal.Layout.plain.text x)

/-- Every standard built-in. -/
def standard : List Builtin :=
  [print, println, typeOf, toText, len, assert, abs, sqrt, toFloat, toInt]

end ScopedScript.Builtin

namespace ScopedScript.Registry

/-- The registry of the standard built-ins. -/
def standard : Registry := empty.registerAll Builtin.standard

example : standard.names = ["print", "println", "typeof", "to_string", "len", "assert", "abs",
    "sqrt", "to_float", "to_int"] := rfl

end ScopedScript.Registry
