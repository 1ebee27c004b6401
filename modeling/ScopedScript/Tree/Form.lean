import ScopedScript.Json.Basic
import ScopedScript.Syntax.Basic

/-!
# Writing records, variants and options

A `Form` says how one data format spells the parts of a tree, so that a tree is described once and
written in any format that has a form.
-/

namespace ScopedScript

structure Form (δ : Type) where
  bool : Bool → δ
  int : Int → δ
  float : Float → δ
  text : String → δ
  list : List δ → δ
  pair : δ → δ → δ
  option : Option δ → δ
  record : List (String × δ) → δ
  /-- A variant without a body. -/
  unit : (tag : String) → δ
  /-- A variant that wraps one value. -/
  wrap : (tag : String) → δ → δ
  /-- A variant whose body is a record. -/
  variant : (tag : String) → List (String × δ) → δ

namespace Form

variable {δ : Type} (w : Form δ)

def nat (n : Nat) : δ := w.int n

def items (write : α → δ) (xs : List α) : δ := w.list (xs.map write)

def texts (xs : List String) : δ := w.items w.text xs

def span (s : Span) : δ := w.record [("start", w.nat s.start), ("end", w.nat s.stop)]

end Form

namespace Json

/-- Objects, with a way to write floats of the caller's choice. -/
def form (number : Float → Json) : Form Json where
  bool := .bool
  int := .int
  float := number
  text := .text
  list := .list
  pair a b := .list [a, b]
  option v := v.getD .null
  record := .object
  unit := .text
  wrap tag v := .object [(tag, v)]
  variant tag members := .object [(tag, .object members)]

end Json

end ScopedScript
