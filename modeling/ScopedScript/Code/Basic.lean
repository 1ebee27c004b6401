import ScopedScript.Syntax.Basic

/-!
# Code of the stack machine

A module holds the code of every function, method and lambda, the layouts of the structs and the
names of the built-ins in use. Functions, structs, built-ins, slots and constants are referred to
by index. Modules may come from outside, so no index is known to be in range.
-/

namespace ScopedScript

/-- What an operator knows about its operands. -/
inductive OperandKind
  | int
  | float
  | string
  /-- At least one operand is of type `any`. -/
  | dynamic
deriving DecidableEq, Repr

/-- The name under which instructions show what they know. -/
def OperandKind.tag : OperandKind → String
  | int => "Int"
  | float => "Float"
  | string => "Str"
  | dynamic => "Dynamic"

/-- The result of a conversion. -/
inductive CastTarget
  | int
  | float
  | bool
  | string
deriving DecidableEq, Repr

/-- The shape that a value leaving `any` has to have. -/
inductive TypeTag
  | int
  | float
  | bool
  | string
  | null
  | struct (id : Nat)
  | function
  | task
  /-- Every shape; the value stays boxed. -/
  | any
  | nullable (inner : TypeTag)
deriving DecidableEq, Repr

inductive Constant
  | int (value : Int64)
  | float (value : Float)
  | bool (value : Bool)
  | string (value : String)
  | null
deriving Repr, Inhabited

inductive Instr
  | const (index : Nat)
  | pop
  | dup
  | arith (op : ArithOp) (operands : OperandKind)
  | neg (operands : OperandKind)
  | order (op : OrderOp) (operands : OperandKind)
  | eq
  | ne
  | not
  | cast (target : CastTarget)
  /-- Joins the texts of this many values. -/
  | format (parts : Nat)
  | jump (target : Nat)
  | jumpIfFalse (target : Nat)
  | jumpIfTrue (target : Nat)
  | enterScope
  | exitScope
  /-- Binds the top value to a slot in the current scope. -/
  | declare (slot : Nat)
  | load (slot : Nat)
  /-- Loads a binding and releases it. -/
  | move (slot : Nat)
  | store (slot : Nat)
  /-- Stores the top value into a field reached from a binding. -/
  | storeField (slot : Nat) (path : List Nat)
  | free (slot : Nat)
  | loadCapture (index : Nat)
  | makeStruct (type fields : Nat)
  | getField (index : Nat)
  /-- Looks a field of a value of type `any` up by name. -/
  | getFieldDynamic (name : String)
  /-- Makes a function value of a function and this many captured values. -/
  | makeClosure (function captures : Nat)
  | loadNative (native : Nat)
  | call (function args : Nat)
  /-- Calls the function value below the arguments. -/
  | callValue (args : Nat)
  /-- Calls the value of type `any` below the arguments. -/
  | callDynamic (args : Nat)
  /-- Calls a method of the value of type `any` below the arguments. -/
  | callMethodDynamic (method : String) (args : Nat)
  | callNative (native args : Nat)
  | ret
  | spawn (function args : Nat)
  | await
  | yieldNow
  | box
  | unbox (tag : TypeTag)
deriving Repr, Inhabited

/-- The code of one function. Spans run parallel to the instructions. -/
structure FunctionCode where
  name : String
  arity : Nat
  /-- How many slots a frame has; parameters come first. -/
  slotCount : Nat
  slotNames : Array String
  /-- The shapes that arguments of a dynamic call have to have. -/
  paramTags : List TypeTag
  isAsync : Bool
  /-- The outer bindings that a lambda copies. -/
  captures : List String
  code : Array Instr
  constants : Array Constant
  spans : Array (Option Span)
deriving Inhabited

structure StructLayout where
  name : String
  fields : List String
  /-- Method names with the functions that they stand for. -/
  methods : List (String × Nat)
deriving Inhabited

structure Module where
  functions : Array FunctionCode
  structs : Array StructLayout
  natives : Array String
  source : Option String
deriving Inhabited

/-- The module without any code. -/
def Module.empty : Module := ⟨#[], #[], #[], none⟩

namespace FunctionCode

/-- The span of an instruction. -/
def spanAt (f : FunctionCode) (ip : Nat) : Option Span := (f.spans[ip]?).join

end FunctionCode

namespace StructLayout

def fieldIndex? (s : StructLayout) (name : String) : Option Nat :=
  s.fields.findIdx? fun f => f == name

def method? (s : StructLayout) (name : String) : Option Nat := s.methods.lookup name

end StructLayout

namespace Module

/-- The first function of this name. -/
def functionId? (m : Module) (name : String) : Option Nat :=
  m.functions.findIdx? fun f => f.name == name

def structName (m : Module) (id : Nat) : String :=
  match m.structs[id]? with
  | some layout => layout.name
  | none => "<struct>"

end Module

end ScopedScript
