import ScopedScript.Json.Basic

/-!
# Writing JSON text

`compact` writes no blanks; `pretty` puts every item and member on a line of its own, indented by
two spaces a level, and writes empty containers on one line.
-/

namespace ScopedScript.Json

def hexDigit (n : Nat) : Char := (Nat.toDigits 16 (n % 16)).headD '0'

/-- A character as it stands in a string. -/
def escaped (c : Char) : List Char :=
  match c with
  | '"' => ['\\', '"']
  | '\\' => ['\\', '\\']
  | '\n' => ['\\', 'n']
  | '\r' => ['\\', 'r']
  | '\t' => ['\\', 't']
  | '\x08' => ['\\', 'b']
  | '\x0c' => ['\\', 'f']
  | c =>
    if c.toNat < 0x20 then ['\\', 'u', '0', '0', hexDigit (c.toNat / 16), hexDigit c.toNat]
    else [c]

def quoted (s : String) : String := "\"" ++ String.ofList (s.toList.flatMap escaped) ++ "\""

/-- Values that hold no others. -/
def atom : Json → String
  | .bool b => if b then "true" else "false"
  | .int n => Decimal.intText n
  | .real x => Decimal.Layout.json.text x
  | .text s => quoted s
  | _ => "null"

mutual

/-- Writes a value after the text so far, without blanks. -/
def writeCompact (out : String) : Json → String
  | .list items => writeCompactItems (out ++ "[") items ++ "]"
  | .object members => writeCompactMembers (out ++ "\x7b") members ++ "\x7d"
  | .null => out ++ "null"
  | .bool b => out ++ atom (.bool b)
  | .int n => out ++ atom (.int n)
  | .real x => out ++ atom (.real x)
  | .text s => out ++ atom (.text s)
  | .unbounded => out ++ "null"
  | .garbled => out ++ "null"

def writeCompactItems (out : String) : List Json → String
  | [] => out
  | [v] => writeCompact out v
  | v :: w :: rest => writeCompactItems (writeCompact out v ++ ",") (w :: rest)

def writeCompactMembers (out : String) : List (String × Json) → String
  | [] => out
  | [(k, v)] => writeCompact (out ++ quoted k ++ ":") v
  | (k, v) :: m :: rest =>
    writeCompactMembers (writeCompact (out ++ quoted k ++ ":") v ++ ",") (m :: rest)

end

def compact (v : Json) : String := writeCompact "" v

/-- A line break and the indentation of a level. -/
def newline (level : Nat) : String := "\n" ++ String.ofList (List.replicate (2 * level) ' ')

mutual

/-- Writes a value after the text so far, its items one level further in. -/
def writePretty (level : Nat) (out : String) : Json → String
  | .list [] => out ++ "[]"
  | .list (v :: rest) =>
    writePrettyItems (level + 1) (out ++ "[" ++ newline (level + 1)) (v :: rest) ++
      newline level ++ "]"
  | .object [] => out ++ "\x7b\x7d"
  | .object (m :: rest) =>
    writePrettyMembers (level + 1) (out ++ "\x7b" ++ newline (level + 1)) (m :: rest) ++
      newline level ++ "\x7d"
  | .null => out ++ "null"
  | .bool b => out ++ atom (.bool b)
  | .int n => out ++ atom (.int n)
  | .real x => out ++ atom (.real x)
  | .text s => out ++ atom (.text s)
  | .unbounded => out ++ "null"
  | .garbled => out ++ "null"

def writePrettyItems (level : Nat) (out : String) : List Json → String
  | [] => out
  | [v] => writePretty level out v
  | v :: w :: rest =>
    writePrettyItems level (writePretty level out v ++ "," ++ newline level) (w :: rest)

def writePrettyMembers (level : Nat) (out : String) : List (String × Json) → String
  | [] => out
  | [(k, v)] => writePretty level (out ++ quoted k ++ ": ") v
  | (k, v) :: m :: rest =>
    writePrettyMembers level
      (writePretty level (out ++ quoted k ++ ": ") v ++ "," ++ newline level) (m :: rest)

end

def pretty (v : Json) : String := writePretty 0 "" v

end ScopedScript.Json
