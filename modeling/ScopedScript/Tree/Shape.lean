import ScopedScript.Json.Basic
import ScopedScript.Syntax.Basic

/-!
# Records, variants and options in a data format

Trees and modules are made of records, tagged variants, lists, pairs and options. A `Shape` says
how one data format spells each of them, so that a tree is described once and read from any
format that has a shape.
-/

namespace ScopedScript

/-- The fields found in a record, each at most once. -/
abbrev Fields (δ : Type) := List (String × δ)

/-- How a data format spells the parts of a tree. -/
structure Shape (δ : Type) where
  bool? : δ → Option Bool
  int? : δ → Option Int
  nat? : δ → Option Nat
  float? : δ → Option Float
  text? : δ → Option String
  items? : δ → Option (List δ)
  pair? : δ → Option (δ × δ)
  /-- An optional value: absent, or present. -/
  option? : δ → Option (Option δ)
  /-- The fields of a record that may be headed by its title, in terms of the names it may
  have. Fields of other names are left out; a name given twice is refused. -/
  fields? : (title : String) → (names : List String) → δ → Option (Fields δ)
  /-- The tag of a variant, and its body when it has one. -/
  variant? : δ → Option (String × Option δ)
  /-- The one value that a variant's body wraps. -/
  content? : δ → Option δ
  /-- Whether a body stands for a variant without one. -/
  isUnit : δ → Bool

namespace Fields

variable {δ α : Type}

/-- A field that has to be present. -/
def required (f : Fields δ) (name : String) (read : δ → Option α) : Option α :=
  (f.lookup name).bind read

/-- A field that may be missing and then has a given value. -/
def defaulted (f : Fields δ) (name : String) (absent : α) (read : δ → Option α) : Option α :=
  match f.lookup name with
  | none => some absent
  | some d => read d

/-- A field that may be missing or hold no value. -/
def optional (s : Shape δ) (f : Fields δ) (name : String) (read : δ → Option α) :
    Option (Option α) :=
  match f.lookup name with
  | none => some none
  | some d =>
    match s.option? d with
    | none => none
    | some none => some none
    | some (some d) => (read d).map some

end Fields

/-- Whether no two fields with one of these names share it. -/
def distinctFields (names : List String) (members : List (String × δ)) : Bool :=
  names.all fun name => (members.filter fun m => m.1 == name).length ≤ 1

namespace Json

/-- The fields of an object, or of a list that gives their values in order. -/
def fields? (names : List String) : Json → Option (Fields Json)
  | .object members =>
    if distinctFields names members then some (members.filter fun m => names.contains m.1)
    else none
  | .list items => if items.length ≤ names.length then some (names.zip items) else none
  | _ => none

/-- A bare name, or an object whose only member is the tag with the body. -/
def variant? : Json → Option (String × Option Json)
  | .text tag => some (tag, none)
  | .object [(tag, body)] => some (tag, some body)
  | _ => none

def pair? : Json → Option (Json × Json)
  | .list [a, b] => some (a, b)
  | _ => none

def isNull : Json → Bool
  | .null => true
  | _ => false

def shape : Shape Json where
  bool? := toBool?
  int? := toInt?
  nat? := toNat?
  float? := toFloat?
  text? := toText?
  items? := toItems?
  pair? := pair?
  option? v := some (if v.isNull then none else some v)
  fields? _ names v := v.fields? names
  variant? := variant?
  content? := some
  isUnit := isNull

/-- The shape in which the body of a variant, which has no title, names its fields. -/
def namedShape : Shape Json :=
  { shape with
    fields? := fun title names v =>
      match title, v with
      | "", .list _ => none
      | _, v => v.fields? names }

end Json

namespace Shape

variable {δ : Type} (s : Shape δ)

/-- A 64-bit integer. -/
def word? (d : δ) : Option Int64 := (s.int? d).bind Decimal.toWord?

/-- A natural number below a bound. -/
def below? (bound : Nat) (d : δ) : Option Nat :=
  (s.nat? d).bind fun n => if n < bound then some n else none

/-- A byte offset, which is a 64-bit natural number. -/
def offset? (d : δ) : Option Nat := s.below? (Nat.pow 2 64) d

/-- An index into a table, which is a 32-bit natural number. -/
def index? (d : δ) : Option Nat := s.below? (Nat.pow 2 32) d

/-- A variant without a body, out of a table of tags. A body that stands for none is allowed and
takes one level. -/
def tag? (level : Nat) (table : List (String × α)) (d : δ) : Option α :=
  match s.variant? d with
  | some (tag, none) => table.lookup tag
  | some (tag, some body) => if 0 < level ∧ s.isUnit body then table.lookup tag else none
  | none => none

/-- A list, whose items stand one level further in. -/
def list? (level : Nat) (read : Nat → δ → Option α) (d : δ) : Option (List α) :=
  match level with
  | 0 => none
  | level + 1 => (s.items? d).bind fun items => items.mapM (read level)

/-- A span, which is a record of two offsets. -/
def span? (level : Nat) (d : δ) : Option Span :=
  if level = 0 then none
  else do
    let f ← s.fields? "Span" ["start", "end"] d
    return ⟨← f.required "start" s.offset?, ← f.required "end" s.offset?⟩

end Shape

end ScopedScript
