import ScopedScript.Ron.Parser
import ScopedScript.Tree.Shape

/-!
# Records and variants of object notation

A record may be headed by its title, an optional value is `None` or `Some(value)`, and a variant
is a word, or a word in front of a parenthesised body.

What is read is a part of a text together with the levels of nesting that are left for it. The
brackets of a list, a pair or a record take one level, and so does what stands in them; an option
takes one; a variant takes one, and one more for its name or for the value that it wraps. A part
that nobody asks for is paid for like any other.
-/

namespace ScopedScript.Ron

mutual

/-- Whether a value that nobody asks for can be passed over with so many levels left. -/
def ignorable (left : Nat) : Ron → Bool
  | .numeral cs => isNumber cs
  | .bool _ | .text _ | .char _ | .word _ | .absent | .tuple none [] => true
  | .blank => false
  | .present v => 1 ≤ left && ignorable (left - 1) v
  | .list [] | .tuple _ [] | .record _ [] | .map [] => 1 ≤ left
  | .list (v :: rest) => 2 ≤ left && ignorableItems (left - 2) (v :: rest)
  | .tuple _ (v :: rest) => 2 ≤ left && ignorableItems (left - 2) (v :: rest)
  | .record _ (m :: rest) => 2 ≤ left && ignorableMembers (left - 2) (m :: rest)
  | .map (e :: rest) => 2 ≤ left && ignorableEntries (left - 2) (e :: rest)

def ignorableItems (left : Nat) : List Ron → Bool
  | [] => true
  | v :: rest => ignorable left v && ignorableItems left rest

def ignorableMembers (left : Nat) : List (String × Ron) → Bool
  | [] => true
  | (_, v) :: rest => ignorable left v && ignorableMembers left rest

def ignorableEntries (left : Nat) : List (Ron × Ron) → Bool
  | [] => true
  | (k, v) :: rest => ignorable left k && ignorable left v && ignorableEntries left rest

end

/-- A part of a text, and how it may be read. -/
structure Part where
  extensions : Extensions
  /-- The levels of nesting that are left for it. -/
  left : Nat
  /-- Whether it stands where the fields of a record would have to stand without parentheses. -/
  refusesRecord : Bool
  value : Ron

namespace Document

/-- The whole of a text as a part. -/
def root (d : Document) : Part := ⟨d.extensions, maxLevel, false, d.value⟩

end Document

namespace Part

/-- A value inside a part, so many levels further in. -/
def inside (p : Part) (levels : Nat) (v : Ron) : Part :=
  { p with left := p.left - levels, refusesRecord := false, value := v }

def bool? (p : Part) : Option Bool :=
  match p.value with
  | .bool b => some b
  | _ => none

def int? (p : Part) : Option Int :=
  match p.value with
  | .numeral cs => readInt? cs
  | _ => none

def nat? (p : Part) : Option Nat :=
  match p.value with
  | .numeral cs => readNat? cs
  | _ => none

def float? (p : Part) : Option Float :=
  match p.value with
  | .numeral cs => readFloat? cs
  | _ => none

def text? (p : Part) : Option String :=
  match p.value with
  | .text s => some s
  | _ => none

def items? (p : Part) : Option (List Part) :=
  match p.value with
  | .list [] => if 1 ≤ p.left then some [] else none
  | .list items => if 2 ≤ p.left then some (items.map (p.inside 2)) else none
  | _ => none

/-- A pair may end in two commas. -/
def pair? (p : Part) : Option (Part × Part) :=
  match p.value with
  | .tuple none [a, b] | .tuple none [a, b, .blank] =>
    if 2 ≤ p.left then some (p.inside 2 a, p.inside 2 b) else none
  | _ => none

/-- The name after the word `Some`, from which nothing need part it. -/
def afterSome (name : String) : String :=
  if "Some".isPrefixOf name && name.length > 4 then (name.drop 4).toString else name

/-- A value that is present without being wrapped. -/
def bareSome : Ron → Ron
  | .word name => .word (afterSome name)
  | .tuple (some title) items => .tuple (some (afterSome title)) items
  | .record (some title) members => .record (some (afterSome title)) members
  | v => v

def option? (p : Part) : Option (Option Part) :=
  match p.value with
  | .absent => some none
  | .present v => if 1 ≤ p.left then some (some (p.inside 1 v)) else none
  | v =>
    if p.extensions.implicitSome ∧ 1 ≤ p.left then some (some (p.inside 1 (bareSome v))) else none

/-- Whether a record of this title may be headed so. -/
def titleFits (expected : String) : Option String → Bool
  | none => true
  | some title => title == expected

/-- The fields of a record; empty parentheses are a record too. -/
def fields? (title : String) (names : List String) (p : Part) : Option (Fields Part) :=
  if p.refusesRecord then none
  else
    match p.value with
    | .record head members =>
      let (known, others) := members.partition fun m => names.contains m.1
      if titleFits title head && distinctFields names members && 2 ≤ p.left &&
          ignorableMembers (p.left - 2) others then
        some (known.map fun m => (m.1, p.inside 2 m.2))
      else none
    | .tuple head [] => if titleFits title head && 1 ≤ p.left then some [] else none
    | _ => none

/-- The tag of a variant; its body keeps the level that a wrapped value takes. -/
def variant? (p : Part) : Option (String × Option Part) :=
  if p.left < 2 then none
  else
    match p.value with
    | .word tag => some (tag, none)
    | .tuple (some tag) items => some (tag, some (p.inside 1 (.tuple none items)))
    | .record (some tag) members => some (tag, some (p.inside 1 (.record none members)))
    | _ => none

/-- What stands in the parentheses of a variant: one item, or, where variants are unwrapped, the
fields of a record, which may not have parentheses of its own then. -/
def content? (p : Part) : Option Part :=
  if p.left < 1 then none
  else
    match p.value with
    | .tuple none [v] =>
      some { p.inside 1 v with refusesRecord := p.extensions.unwrapVariants }
    | .record none members =>
      if p.extensions.unwrapVariants then some (p.inside 1 (.record none members)) else none
    | _ => none

end Part

def shape : Shape Part where
  bool? := Part.bool?
  int? := Part.int?
  nat? := Part.nat?
  float? := Part.float?
  text? := Part.text?
  items? := Part.items?
  pair? := Part.pair?
  option? := Part.option?
  fields? := Part.fields?
  variant? := Part.variant?
  content? := Part.content?
  isUnit _ := false

end ScopedScript.Ron
