import ScopedScript.Code.Basic
import ScopedScript.Decimal.Layout

/-!
# Values

Values are copied, never shared. A value of static type `any` is kept in a box; most operations
look through boxes.
-/

namespace ScopedScript

inductive Value
  | int (value : Int64)
  | float (value : Float)
  | bool (value : Bool)
  | string (value : String)
  | null
  | struct (type : Nat) (fields : List Value)
  | function (id : Nat)
  /-- A lambda with the values it captured. -/
  | closure (function : Nat) (captures : List Value)
  | native (id : Nat)
  | task (id : Nat)
  | any (inner : Value)
deriving Repr, Inhabited

namespace Value

/-- The value inside any number of boxes. -/
def unboxed : Value → Value
  | any inner => unboxed inner
  | v => v

/-- Puts a value into a box, unless it is in one. -/
def boxed : Value → Value
  | any inner => any inner
  | v => any v

def isBoxed : Value → Bool
  | any _ => true
  | _ => false

@[simp]
theorem unboxed_boxed (v : Value) : v.boxed.unboxed = v.unboxed := by
  cases v <;> rfl

@[simp]
theorem boxed_boxed (v : Value) : v.boxed.boxed = v.boxed := by
  cases v <;> rfl

/-- The name of the type that a value has when the program runs. -/
def typeName (m : Module) : Value → String
  | int _ => "int"
  | float _ => "float"
  | bool _ => "bool"
  | string _ => "string"
  | null => "null"
  | struct type _ => m.structName type
  | function _ | closure _ _ | native _ => "function"
  | task _ => "task"
  | any inner => typeName m inner

/-- Whether a value that is in no box has the shape of a tag. -/
def hasTag : TypeTag → Value → Bool
  | .any, _ => true
  | .nullable _, .null => true
  | .nullable inner, v => hasTag inner v
  | .int, .int _ => true
  | .float, .float _ => true
  | .bool, .bool _ => true
  | .string, .string _ => true
  | .null, .null => true
  | .task, .task _ => true
  | .function, .function _ => true
  | .function, .closure _ _ => true
  | .function, .native _ => true
  | .struct expected, .struct type _ => expected == type
  | _, _ => false

/-- Whether the value inside the boxes has the shape of a tag. -/
def hasShape (tag : TypeTag) (v : Value) : Bool := hasTag tag v.unboxed

mutual

/-- The text of a value, with the names that the module has for structs and functions. -/
def text (m : Module) : Value → String
  | int n => Decimal.wordText n
  | float x => Decimal.floatText x
  | bool b => if b then "true" else "false"
  | string s => s
  | null => "null"
  | struct type fields =>
    m.structName type ++ " \x7b" ++
      fieldTexts m (((m.structs[type]?).map StructLayout.fields).getD []) fields ++ " \x7d"
  | function id => functionText m id
  | closure id _ => functionText m id
  | native id =>
    match m.natives[id]? with
    | some name => "<native " ++ name ++ ">"
    | none => "<native>"
  | task id => "<task " ++ Decimal.natText id ++ ">"
  | any inner => text m inner
where
  functionText (m : Module) (id : Nat) : String :=
    match m.functions[id]? with
    | some f => "<fn " ++ f.name ++ ">"
    | none => "<fn>"

/-- Fields with their names; a field beyond the layout has the name `?`. -/
def fieldTexts (m : Module) (names : List String) : List Value → String
  | [] => ""
  | [v] => " " ++ names.headD "?" ++ ": " ++ text m v
  | v :: w :: rest =>
    " " ++ names.headD "?" ++ ": " ++ text m v ++ "," ++ fieldTexts m names.tail (w :: rest)

end

mutual

/-- Structural equality of values as they stand. -/
def identical : Value → Value → Bool
  | int a, int b => a == b
  | float a, float b => a == b
  | bool a, bool b => a == b
  | string a, string b => a == b
  | null, null => true
  | struct t fs, struct u gs => t == u && identicalList fs gs
  | function f, function g => f == g
  | closure f cs, closure g ds => f == g && identicalList cs ds
  | native f, native g => f == g
  | task f, task g => f == g
  | any a, any b => identical a b
  | _, _ => false

def identicalList : List Value → List Value → Bool
  | [], [] => true
  | a :: as, b :: bs => identical a b && identicalList as bs
  | _, _ => false

end

end Value

/-- The name of a tag in messages. -/
def TypeTag.text (m : Module) : TypeTag → String
  | .int => "int"
  | .float => "float"
  | .bool => "bool"
  | .string => "string"
  | .null => "null"
  | .struct id => m.structName id
  | .function => "function"
  | .task => "task"
  | .any => "any"
  | .nullable inner => inner.text m ++ "?"

end ScopedScript
