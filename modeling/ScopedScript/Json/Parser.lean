import ScopedScript.Json.Basic

/-!
# Reading JSON text

Recursive descent over the characters. Calls are paid for from a budget of fuel; twice the length
of the text covers them, since no two nested calls in a row leave the text as it is.
-/

namespace ScopedScript.Json

def isSpace (c : Char) : Bool := c = ' ' || c = '\n' || c = '\t' || c = '\r'

def skipSpace (cs : List Char) : List Char := cs.dropWhile isSpace

def hexValue? (c : Char) : Option Nat :=
  if c.isDigit then some (c.toNat - '0'.toNat)
  else if 'a' ≤ c ∧ c ≤ 'f' then some (c.toNat - 'a'.toNat + 10)
  else if 'A' ≤ c ∧ c ≤ 'F' then some (c.toNat - 'A'.toNat + 10)
  else none

/-- Four hexadecimal digits. -/
def unit? : List Char → Option (Nat × List Char)
  | a :: b :: c :: d :: rest => do
    let a ← hexValue? a
    let b ← hexValue? b
    let c ← hexValue? c
    let d ← hexValue? d
    return (((a * 16 + b) * 16 + c) * 16 + d, rest)
  | _ => none

/-- The parts of a string: characters, and 16-bit units given by escapes. -/
inductive Piece
  | char (c : Char)
  | unit (n : Nat)

/-- The pieces up to the closing quote. -/
def pieces : Nat → List Char → List Piece → Option (List Piece × List Char)
  | 0, _, _ => none
  | fuel + 1, cs, done =>
    match cs with
    | [] => none
    | '"' :: rest => some (done.reverse, rest)
    | '\\' :: 'u' :: rest =>
      match unit? rest with
      | some (n, rest) => pieces fuel rest (.unit n :: done)
      | none => none
    | '\\' :: c :: rest =>
      match c with
      | '"' | '\\' | '/' => pieces fuel rest (.char c :: done)
      | 'b' => pieces fuel rest (.char '\x08' :: done)
      | 'f' => pieces fuel rest (.char '\x0c' :: done)
      | 'n' => pieces fuel rest (.char '\n' :: done)
      | 'r' => pieces fuel rest (.char '\r' :: done)
      | 't' => pieces fuel rest (.char '\t' :: done)
      | _ => none
    | c :: rest => if c.toNat < 0x20 then none else pieces fuel rest (.char c :: done)

/-- Joins surrogate pairs; a lone surrogate names no character. -/
def joinPieces : List Piece → Option (List Char)
  | [] => some []
  | .char c :: rest => (joinPieces rest).map (c :: ·)
  | .unit n :: rest =>
    if 0xD800 ≤ n ∧ n < 0xDC00 then
      match rest with
      | .unit m :: rest =>
        if 0xDC00 ≤ m ∧ m < 0xE000 then
          let code := 0x10000 + (n - 0xD800) * 0x400 + (m - 0xDC00)
          (joinPieces rest).map (Char.ofNat code :: ·)
        else none
      | _ => none
    else if 0xDC00 ≤ n ∧ n < 0xE000 then none
    else (joinPieces rest).map (Char.ofNat n :: ·)

/-- The characters of a string after its opening quote; `none` inside when they are garbled. -/
def string? (fuel : Nat) (cs : List Char) : Option (Option String × List Char) := do
  let (parts, rest) ← pieces fuel cs []
  return ((joinPieces parts).map String.ofList, rest)

/-- A numeral after its sign, by the number grammar: no leading zeros, and digits on both sides
of a point. -/
def numeral? (negative : Bool) (cs : List Char) : Option (Json × List Char) := do
  let whole := cs.takeWhile Char.isDigit
  let rest := cs.dropWhile Char.isDigit
  if whole.isEmpty ∨ (whole.length > 1 ∧ whole.head? = some '0') then none
  else
    let (fraction, rest, hasPoint) := match rest with
      | '.' :: r => (r.takeWhile Char.isDigit, r.dropWhile Char.isDigit, true)
      | r => ([], r, false)
    if hasPoint ∧ fraction.isEmpty then none
    else
      let plain := !hasPoint && rest.head? != some 'e' && rest.head? != some 'E'
      let (exponent, after) ← Decimal.splitExponent rest
      let n : Int := Decimal.value whole
      if plain ∧ ¬(negative ∧ n = 0) then
        return (.int (if negative then -n else n), after)
      else
        match (Decimal.Numeral.mk whole fraction exponent).staged with
        | some x => return (.real (if negative then -x else x), after)
        | none => return (.unbounded, after)

/-- The object of these members, whose names may be garbled. -/
def ofMembers (members : List (Option String × Json)) : Json :=
  match members.mapM fun m => m.1.map fun name => (name, m.2) with
  | some members => .object members
  | none => .garbled

mutual

def value? : Nat → List Char → Option (Json × List Char)
  | 0, _ => none
  | fuel + 1, cs =>
    match cs with
    | 'n' :: 'u' :: 'l' :: 'l' :: rest => some (.null, rest)
    | 't' :: 'r' :: 'u' :: 'e' :: rest => some (.bool true, rest)
    | 'f' :: 'a' :: 'l' :: 's' :: 'e' :: rest => some (.bool false, rest)
    | '"' :: rest => do
      let (s, rest) ← string? fuel rest
      return (s.elim .garbled .text, rest)
    | '-' :: rest => numeral? true rest
    | '[' :: rest =>
      match skipSpace rest with
      | ']' :: rest => some (.list [], rest)
      | rest => do
        let (items, rest) ← items? fuel rest
        return (.list items, rest)
    | '{' :: rest =>
      match skipSpace rest with
      | '}' :: rest => some (.object [], rest)
      | rest => do
        let (members, rest) ← members? fuel rest
        return (ofMembers members, rest)
    | rest => numeral? false rest

/-- Items up to the closing bracket, at least one. -/
def items? : Nat → List Char → Option (List Json × List Char)
  | 0, _ => none
  | fuel + 1, cs => do
    let (item, rest) ← value? fuel (skipSpace cs)
    match skipSpace rest with
    | ',' :: rest =>
      let (items, rest) ← items? fuel rest
      return (item :: items, rest)
    | ']' :: rest => return ([item], rest)
    | _ => none

/-- Members up to the closing brace, at least one. -/
def members? : Nat → List Char → Option (List (Option String × Json) × List Char)
  | 0, _ => none
  | fuel + 1, cs =>
    match skipSpace cs with
    | '"' :: rest => do
      let (name, rest) ← string? fuel rest
      match skipSpace rest with
      | ':' :: rest =>
        let (item, rest) ← value? fuel (skipSpace rest)
        match skipSpace rest with
        | ',' :: rest =>
          let (members, rest) ← members? fuel rest
          return ((name, item) :: members, rest)
        | '}' :: rest => return ([(name, item)], rest)
        | _ => none
      | _ => none
    | _ => none

end

/-- The value that a whole text stands for. -/
def parse? (text : String) : Option Json :=
  let cs := text.toList
  match value? (2 * cs.length + 2) (skipSpace cs) with
  | some (v, rest) => if (skipSpace rest).isEmpty then some v else none
  | none => none

end ScopedScript.Json
