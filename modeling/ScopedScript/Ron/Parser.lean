import ScopedScript.Ron.Basic

/-!
# Reading object notation

Recursive descent over the characters, paid for from a budget of fuel as in every reader of text.
The depth of brackets is bounded too: no reader of the values goes deeper, since each bracket
takes at least one of its levels.
-/

namespace ScopedScript.Ron.Parser

def isSpace (c : Char) : Bool := c = ' ' || c = '\n' || c = '\t' || c = '\r'

/-- The text after a block comment of this depth; comments nest. -/
def skipBlock : Nat → List Char → Option (List Char)
  | depth, '/' :: '*' :: rest => skipBlock (depth + 1) rest
  | depth, '*' :: '/' :: rest => if depth ≤ 1 then some rest else skipBlock (depth - 1) rest
  | depth, _ :: rest => skipBlock depth rest
  | _, [] => none

/-- The text after blanks and comments. A slash that begins no comment is refused. -/
def skip? : Nat → List Char → Option (List Char)
  | 0, _ => none
  | fuel + 1, cs =>
    match cs.dropWhile isSpace with
    | '/' :: '/' :: rest => skip? fuel (rest.dropWhile (· ≠ '\n'))
    | '/' :: '*' :: rest => (skipBlock 1 rest).bind (skip? fuel)
    | '/' :: _ => none
    | rest => some rest

/-- The character of a number, if it has one. -/
def char? (n : Nat) : Option Char := if n.isValidChar then some (Char.ofNat n) else none

/-- The digits of a character number up to the closing brace, at most six. -/
def codePoint? : Nat → Nat → List Char → Option (Nat × List Char)
  | _, n, '}' :: rest => some (n, rest)
  | 0, _, _ => none
  | left + 1, n, c :: rest =>
    match digit? c with
    | some d => codePoint? left (n * 16 + d) rest
    | none => none
  | _, _, [] => none

/-- The character that an escape after its backslash stands for. -/
def escape? : List Char → Option (Char × List Char)
  | '\'' :: rest => some ('\'', rest)
  | '"' :: rest => some ('"', rest)
  | '\\' :: rest => some ('\\', rest)
  | 'n' :: rest => some ('\n', rest)
  | 'r' :: rest => some ('\r', rest)
  | 't' :: rest => some ('\t', rest)
  | '0' :: rest => some (Char.ofNat 0, rest)
  | 'x' :: a :: b :: rest => do
    let c ← char? ((← digit? a) * 16 + (← digit? b))
    return (c, rest)
  | 'u' :: '{' :: '}' :: _ => none
  | 'u' :: '{' :: rest => do
    let (n, rest) ← codePoint? 6 0 rest
    return (← char? n, rest)
  | _ => none

/-- The characters of a string up to its closing quote. -/
def stringBody? : Nat → List Char → List Char → Option (String × List Char)
  | 0, _, _ => none
  | fuel + 1, cs, done =>
    match cs with
    | [] => none
    | '"' :: rest => some (String.ofList done.reverse, rest)
    | '\\' :: rest =>
      match escape? rest with
      | some (c, rest) => stringBody? fuel rest (c :: done)
      | none => none
    | c :: rest => stringBody? fuel rest (c :: done)

/-- The characters of a raw string up to a quote followed by this many number signs. -/
def rawBody? (signs : Nat) : List Char → List Char → Option (String × List Char)
  | [], _ => none
  | c :: rest, done =>
    if c = '"' ∧ (rest.take signs).length = signs ∧ (rest.take signs).all (· = '#') then
      some (String.ofList done.reverse, rest.drop signs)
    else rawBody? signs rest (c :: done)

/-- A raw string after its `r`. -/
def raw? (cs : List Char) : Option (String × List Char) :=
  let signs := (cs.takeWhile (· = '#')).length
  match cs.drop signs with
  | '"' :: rest => rawBody? signs rest []
  | _ => none

def isNumeralChar (c : Char) : Bool := c.isAlphanum || "_.+-".contains c

def isWordStart (c : Char) : Bool := c.isAlpha || c = '_'

def isWordChar (c : Char) : Bool := c.isAlphanum || c = '_'

/-- A plain name at the front of a text. -/
def word? (cs : List Char) : Option (String × List Char) :=
  match cs with
  | c :: _ =>
    if isWordStart c then
      some (String.ofList (cs.takeWhile isWordChar), cs.dropWhile isWordChar)
    else none
  | [] => none

/-- A name after the mark `r#`, which may hold the characters of numerals. -/
def marked? (cs : List Char) : Option (String × List Char) :=
  match cs.takeWhile isNumeralChar with
  | [] => none
  | name => some (String.ofList name, cs.dropWhile isNumeralChar)

/-- A name, plain or marked, at the front of a text. -/
def name? : List Char → Option (String × List Char)
  | 'r' :: '#' :: rest => marked? rest
  | cs => word? cs

/-- A numeral at the front of a text. -/
def numeral? (cs : List Char) : Option (Ron × List Char) :=
  let text := cs.takeWhile isNumeralChar
  if (readInt? text).isSome ∨ (readFloat? text).isSome then
    some (.numeral text, cs.dropWhile isNumeralChar)
  else none

/-- A name that a colon follows. -/
def memberName? (fuel : Nat) (cs : List Char) : Option (String × List Char) := do
  let (name, rest) ← name? cs
  match ← skip? fuel rest with
  | ':' :: rest => return (name, rest)
  | _ => none

/-- The text after a comma, if there is one before the closing character. -/
def afterItem? (fuel : Nat) (close : Char) (cs : List Char) : Option (Bool × List Char) := do
  match ← skip? fuel cs with
  | ',' :: rest =>
    match ← skip? fuel rest with
    | c :: rest => if c = close then return (false, rest) else return (true, c :: rest)
    | [] => none
  | c :: rest => if c = close then return (false, rest) else none
  | [] => none

/-- The text after a fixed mark and the blanks behind it. -/
def mark? (fuel : Nat) (mark : String) (cs : List Char) : Option (List Char) :=
  if mark.toList.isPrefixOf cs then skip? fuel (cs.drop mark.length) else none

/-- The names of extensions, at least one, up to the closing parenthesis. -/
def extensionNames? : Nat → Extensions → List Char → Option (Extensions × List Char)
  | 0, _, _ => none
  | fuel + 1, e, cs => do
    let (name, rest) ← name? cs
    let e ← e.with? name
    match ← afterItem? fuel ')' rest with
    | (false, rest) => return (e, rest)
    | (true, rest) => extensionNames? fuel e rest

/-- The extensions that a text allows itself at its head, and the text after them. -/
def extensions? : Nat → Extensions → List Char → Option (Extensions × List Char)
  | 0, _, _ => none
  | fuel + 1, e, cs => do
    match ← skip? fuel cs with
    | '#' :: rest =>
      let rest ← mark? fuel "!" (← skip? fuel rest)
      let rest ← mark? fuel "[" rest
      let rest ← mark? fuel "enable" rest
      let rest ← mark? fuel "(" rest
      let (e, rest) ← extensionNames? fuel e rest
      let rest ← mark? fuel "]" (← skip? fuel rest)
      extensions? fuel e rest
    | rest => return (e, rest)

section

variable (extensions : Extensions)

mutual

/-- A value after any blanks, with so many levels of brackets left for it. -/
def value? : Nat → Nat → List Char → Option (Ron × List Char)
  | 0, _, _ => none
  | fuel + 1, level, cs => do
    match ← skip? fuel cs with
    | '"' :: rest =>
      let (s, rest) ← stringBody? fuel rest []
      return (.text s, rest)
    | '\'' :: '\\' :: rest =>
      let (c, rest) ← escape? rest
      match rest with
      | '\'' :: rest => return (.char c, rest)
      | _ => none
    | '\'' :: c :: '\'' :: rest => if c = '\'' then none else return (.char c, rest)
    | '[' :: rest =>
      if level = 0 then none
      match ← skip? fuel rest with
      | ']' :: rest => return (.list [], rest)
      | rest =>
        let (items, rest) ← items? fuel (level - 1) ']' rest
        return (.list items, rest)
    | '{' :: rest =>
      if level = 0 then none
      match ← skip? fuel rest with
      | '}' :: rest => return (.map [], rest)
      | rest =>
        let (entries, rest) ← entries? fuel (level - 1) rest
        return (.map entries, rest)
    | '(' :: rest => body? fuel level none rest
    | 'r' :: '"' :: rest =>
      let (s, rest) ← raw? ('"' :: rest)
      return (.text s, rest)
    | 'r' :: '#' :: rest =>
      match marked? rest with
      | some (name, rest) => titled? fuel level name rest
      | none =>
        let (s, rest) ← raw? ('#' :: rest)
        return (.text s, rest)
    | rest =>
      match word? rest with
      | none => numeral? rest
      | some ("true", rest) => return (.bool true, rest)
      | some ("false", rest) => return (.bool false, rest)
      | some ("inf", rest) => return (.numeral "inf".toList, rest)
      | some ("NaN", rest) => return (.numeral "NaN".toList, rest)
      | some ("None", rest) => return (.absent, rest)
      | some ("Some", rest) => some? fuel level rest
      | some (name, rest) => titled? fuel level name rest

/-- What follows the word `Some`: a value in parentheses, or a bare one where that is allowed. -/
def some? : Nat → Nat → List Char → Option (Ron × List Char)
  | 0, _, _ => none
  | fuel + 1, level, cs => do
    if level = 0 then none
    match ← skip? fuel cs with
    | '(' :: rest =>
      let (v, rest) ← value? fuel (level - 1) rest
      match ← afterItem? fuel ')' rest with
      | (false, rest) => return (.present v, rest)
      | (true, _) => none
    | rest =>
      if extensions.implicitSome then
        let (v, rest) ← value? fuel (level - 1) rest
        return (.present v, rest)
      else none

/-- What follows a name: a body that it is the title of, or nothing. -/
def titled? : Nat → Nat → String → List Char → Option (Ron × List Char)
  | 0, _, _, _ => none
  | fuel + 1, level, name, cs => do
    match ← skip? fuel cs with
    | '(' :: rest => body? fuel level (some name) rest
    | rest => return (.word name, rest)

/-- What follows an opening parenthesis: the members of a record, or the items of a tuple. -/
def body? : Nat → Nat → Option String → List Char → Option (Ron × List Char)
  | 0, _, _, _ => none
  | fuel + 1, level, title, cs => do
    if level = 0 then none
    match ← skip? fuel cs with
    | ')' :: rest => return (.tuple title [], rest)
    | rest =>
      match memberName? fuel rest with
      | some _ =>
        let (members, rest) ← members? fuel (level - 1) rest
        return (.record title members, rest)
      | none =>
        let (items, rest) ← items? fuel (level - 1) ')' rest
        return (.tuple title items, rest)

/-- Items up to the closing character, at least one. -/
def items? : Nat → Nat → Char → List Char → Option (List Ron × List Char)
  | 0, _, _, _ => none
  | fuel + 1, level, close, cs => do
    let (item, rest) ← value? fuel level cs
    match ← afterItem? fuel close rest with
    | (false, rest) => return ([item], rest)
    | (true, ',' :: rest) =>
      match ← skip? fuel rest with
      | ')' :: rest => if close = ')' then return ([item, .blank], rest) else none
      | _ => none
    | (true, rest) =>
      let (items, rest) ← items? fuel level close rest
      return (item :: items, rest)

/-- Members up to the closing parenthesis, at least one. -/
def members? : Nat → Nat → List Char → Option (List (String × Ron) × List Char)
  | 0, _, _ => none
  | fuel + 1, level, cs => do
    let (name, rest) ← memberName? fuel cs
    let (item, rest) ← value? fuel level rest
    match ← afterItem? fuel ')' rest with
    | (false, rest) => return ([(name, item)], rest)
    | (true, rest) =>
      let (members, rest) ← members? fuel level rest
      return ((name, item) :: members, rest)

/-- Entries of a map up to its closing brace, at least one. -/
def entries? : Nat → Nat → List Char → Option (List (Ron × Ron) × List Char)
  | 0, _, _ => none
  | fuel + 1, level, cs => do
    let (key, rest) ← value? fuel level cs
    match ← skip? fuel rest with
    | ':' :: rest =>
      let (item, rest) ← value? fuel level rest
      match ← afterItem? fuel '}' rest with
      | (false, rest) => return ([(key, item)], rest)
      | (true, rest) =>
        let (entries, rest) ← entries? fuel level rest
        return ((key, item) :: entries, rest)
    | _ => none

end

end

end Parser

/-- How deep the parts of a text may nest. -/
def maxLevel : Nat := 128

/-- What a whole text says. -/
def parse? (text : String) : Option Document := do
  let cs := text.toList
  let fuel := 2 * cs.length + 2
  let (extensions, rest) ← Parser.extensions? fuel .none cs
  let (value, rest) ← Parser.value? extensions fuel maxLevel rest
  match ← Parser.skip? fuel rest with
  | [] => return { extensions, value }
  | _ => none

end ScopedScript.Ron
