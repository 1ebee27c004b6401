import ScopedScript.Ron.Basic
import ScopedScript.Text.Quoted
import ScopedScript.Tree.Form

/-!
# Writing object notation

Every member and item stands on a line of its own, indented by four spaces a level.
-/

namespace ScopedScript.Ron

def form : Form Ron where
  bool := .bool
  int n := .numeral (Decimal.intText n).toList
  float x := .numeral (Decimal.Layout.literal.text x).toList
  text := .text
  list := .list
  pair a b := .tuple none [a, b]
  option
    | none => .absent
    | some v => .present v
  record := .record none
  unit := .word
  wrap tag v := .tuple (some tag) [v]
  variant tag members := .record (some tag) members

/-- A line break and the indentation of a level. -/
def newline (level : Nat) : String := "\n" ++ String.ofList (List.replicate (4 * level) ' ')

mutual

/-- Writes a value after the text so far. -/
def write (level : Nat) (out : String) : Ron → String
  | .bool b => out ++ (if b then "true" else "false")
  | .numeral cs => out ++ String.ofList cs
  | .text s => out ++ Text.quoted s
  | .char c => out ++ "'" ++ String.ofList (if c = '\'' then ['\\', c] else Text.escaped c) ++ "'"
  | .word name => out ++ name
  | .absent => out ++ "None"
  | .present v => write level (out ++ "Some(") v ++ ")"
  | .blank => out ++ ","
  | .list [] => out ++ "[]"
  | .list (v :: rest) => writeLines (level + 1) (out ++ "[") (v :: rest) ++ newline level ++ "]"
  | .tuple title items => writeItems level (out ++ title.getD "" ++ "(") items ++ ")"
  | .record title [] => out ++ title.getD "" ++ "()"
  | .record title (m :: rest) =>
    writeMembers (level + 1) (out ++ title.getD "" ++ "(") (m :: rest) ++ newline level ++ ")"
  | .map [] => out ++ "\x7b\x7d"
  | .map (e :: rest) =>
    writeEntries (level + 1) (out ++ "\x7b") (e :: rest) ++ newline level ++ "\x7d"

/-- Items that share a line. -/
def writeItems (level : Nat) (out : String) : List Ron → String
  | [] => out
  | [v] => write level out v
  | v :: w :: rest => writeItems level (write level out v ++ ", ") (w :: rest)

/-- Items with a line each. -/
def writeLines (level : Nat) (out : String) : List Ron → String
  | [] => out
  | v :: rest => writeLines level (write level (out ++ newline level) v ++ ",") rest

def writeMembers (level : Nat) (out : String) : List (String × Ron) → String
  | [] => out
  | (name, v) :: rest =>
    writeMembers level (write level (out ++ newline level ++ name ++ ": ") v ++ ",") rest

def writeEntries (level : Nat) (out : String) : List (Ron × Ron) → String
  | [] => out
  | (k, v) :: rest =>
    writeEntries level (write level (write level (out ++ newline level) k ++ ": ") v ++ ",") rest

end

def pretty (v : Ron) : String := write 0 "" v

end ScopedScript.Ron
