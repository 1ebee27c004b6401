import ScopedScript.Decimal.Reading

/-!
# Object notation

Values of the RON format: records and tuples in parentheses, either of which may have a title,
lists, maps, options and bare words. Numerals keep their text, since what they stand for depends
on what is asked for.
-/

namespace ScopedScript

inductive Ron
  | bool (value : Bool)
  | numeral (text : List Char)
  | text (value : String)
  | char (value : Char)
  /-- A name that stands alone. -/
  | word (name : String)
  /-- An option without a value. -/
  | absent
  /-- An option with its value. -/
  | present (value : Ron)
  /-- What a second comma at the end of a tuple leaves behind it. -/
  | blank
  | list (items : List Ron)
  | tuple (title : Option String) (items : List Ron)
  | record (title : Option String) (members : List (String × Ron))
  | map (entries : List (Ron × Ron))
deriving Repr, Inhabited

namespace Ron

/-- The value of a digit in any base up to sixteen. -/
def digit? (c : Char) : Option Nat :=
  if c.isDigit then some (c.toNat - '0'.toNat)
  else if 'a' ≤ c ∧ c ≤ 'f' then some (c.toNat - 'a'.toNat + 10)
  else if 'A' ≤ c ∧ c ≤ 'F' then some (c.toNat - 'A'.toNat + 10)
  else none

/-- Digits of a base, between which there may be underscores. -/
def digits? (base : Nat) (cs : List Char) : Option Nat :=
  let rec go (n : Nat) : List Char → Option Nat
    | [] => some n
    | '_' :: rest => go n rest
    | c :: rest =>
      match digit? c with
      | some d => if d < base then go (n * base + d) rest else none
      | none => none
  match cs with
  | [] | '_' :: _ => none
  | cs => go 0 cs

/-- An integer without a sign, in base ten unless a mark gives another base. -/
def readNat? : List Char → Option Nat
  | '0' :: 'x' :: cs => digits? 16 cs
  | '0' :: 'o' :: cs => digits? 8 cs
  | '0' :: 'b' :: cs => digits? 2 cs
  | cs => digits? 10 cs

/-- An integer after at most one sign. -/
def readInt? : List Char → Option Int
  | '+' :: cs => (readNat? cs).map Int.ofNat
  | '-' :: cs => (readNat? cs).map fun n => -Int.ofNat n
  | cs => (readNat? cs).map Int.ofNat

/-- Spellings of the floats that have no digits. -/
def boundless : List (List Char) := ["inf".toList, "-inf".toList, "NaN".toList]

/-- A float; infinities and NaN have one spelling each. -/
def readFloat? (cs : List Char) : Option Float :=
  if boundless.contains cs ∨ cs.all (fun c => c.isDigit || "eE.+-".contains c)
  then Decimal.readFloat? cs
  else none

/-- Whether a numeral stands for a number of 64 bits, signed if it has a sign, or for a float. -/
def isNumber (cs : List Char) : Bool :=
  let whole :=
    match cs with
    | '+' :: _ | '-' :: _ => ((readInt? cs).bind Decimal.toWord?).isSome
    | cs => (readNat? cs).any (· < Nat.pow 2 64)
  whole || (readFloat? cs).isSome

/-- Ways of writing that a text can allow itself at its head. -/
structure Extensions where
  /-- A present value need not be wrapped in `Some`. -/
  implicitSome : Bool
  /-- The fields of a record that a variant wraps stand in the parentheses of the variant. -/
  unwrapVariants : Bool
deriving DecidableEq, Repr

def Extensions.none : Extensions := ⟨false, false⟩

/-- The extensions with the one of this name, if there is one. Wrappers around a single value,
which one of them concerns, occur in no tree. -/
def Extensions.with? (e : Extensions) : String → Option Extensions
  | "implicit_some" => some { e with implicitSome := true }
  | "unwrap_variant_newtypes" => some { e with unwrapVariants := true }
  | "unwrap_newtypes" => some e
  | _ => Option.none

/-- A whole text: the extensions that it allows itself, and its value. -/
structure Document where
  extensions : Extensions
  value : Ron
deriving Repr

end Ron

end ScopedScript
