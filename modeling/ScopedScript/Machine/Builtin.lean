import ScopedScript.Machine.Value
import ScopedScript.Typing.Env

/-!
# Built-in functions

A built-in is known to the checker by its name and signature, and to the machine by what it does:
it may write text, and it answers with a value or with a message. What it does depends on its
arguments and the module alone.
-/

namespace ScopedScript

/-- What a built-in wrote, and its answer. -/
structure Reply where
  written : String
  answer : Except String Value

structure Builtin where
  name : String
  params : List TypeExpr
  ret : TypeExpr
  call : Module → List Value → Reply

namespace Builtin

def signature (b : Builtin) : Signature := ⟨b.params.map Ty.ofExpr, Ty.ofExpr b.ret, false⟩

/-- Whether a value that is in no box may be passed for a parameter. -/
def accepts (m : Module) : TypeExpr → Value → Bool
  | .any, _ => true
  | .nullable _, .null => true
  | .nullable inner, v => accepts m inner v
  | .int, .int _ => true
  | .float, .float _ => true
  | .bool, .bool _ => true
  | .string, .string _ => true
  | .task _, .task _ => true
  | .function _ _, .function _ => true
  | .function _ _, .closure _ _ => true
  | .function _ _, .native _ => true
  | .named name, .struct type _ => m.structName type == name
  | _, _ => false

end Builtin

/-- Built-ins in the order in which their names were first registered. -/
structure Registry where
  entries : List Builtin

namespace Registry

def empty : Registry := ⟨[]⟩

def find? (r : Registry) (name : String) : Option Builtin := r.entries.find? fun b => b.name == name

def contains (r : Registry) (name : String) : Bool := (r.find? name).isSome

def size (r : Registry) : Nat := r.entries.length

def names (r : Registry) : List String := r.entries.map Builtin.name

/-- Puts an entry in the place of the one with its name, or at the end. -/
def place (b : Builtin) : List Builtin → List Builtin
  | [] => [b]
  | c :: rest => if c.name = b.name then b :: rest else c :: place b rest

/-- Adds a built-in; it replaces one of the same name. -/
def register (r : Registry) (b : Builtin) : Registry := ⟨place b r.entries⟩

def registerAll (r : Registry) (bs : List Builtin) : Registry := bs.foldl register r

/-- What the checker knows of the built-ins. -/
def signatures (r : Registry) : List (String × Signature) :=
  r.entries.map fun b => (b.name, b.signature)

end Registry

end ScopedScript
