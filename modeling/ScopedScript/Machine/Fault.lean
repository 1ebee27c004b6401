import ScopedScript.Machine.Bindings
import ScopedScript.Typing.Error

/-!
# Faults

A fault ends the task that raised it. It is a cause, and, once it has passed the instruction that
raised it, that instruction's span and function. Types are given by the names that values of them
have when the program runs.
-/

namespace ScopedScript

/-- The longest text that an operator builds, in bytes. -/
def maxTextBytes : Nat := Nat.pow 2 30

/-- Operations on a value of type `any` that turned out to have the wrong type. -/
inductive Mistype
  | operands (op : BinaryOp) (left right : String)
  | negation (found : String)
  | conversion (found : String) (target : CastTarget)
  | notCallable (found : String)
  | noMethod (found method : String)
  | structNoMethod (struct method : String)
  | noField (found field : String)
  | structNoField (struct field : String)
  | notTask (found : String)
  | argumentCount (callee : String) (expected found : Nat)
  | builtinArgument (number : Nat) (builtin found : String)
  | shape (expected found : String)
  | asyncCall (function : String)
  | argument (number : Nat) (function : String) (cause : Mistype)
  /-- A cause that is known by its text only. -/
  | stated (text : String)
deriving DecidableEq, Repr

/-- Code that the compiler never makes. -/
inductive Malformed
  | noFrame
  | pastEnd (ip : Nat) (function : String)
  | noConstant (index : Nat)
  | emptyDup
  | underflow
  | fieldRange (index : Nat)
  | fieldAccess (found : String)
  | fieldMissing (field : String)
  | captureRange (index : Nat)
  | noFunction (id : Nat)
  | noStruct (id : Nat)
  | notCallable (found : String)
  | awaitsItself
  | noTask (id : Nat)
  | noResult (task : Nat)
  | unlinked (native : Nat)
  | condition
  | operands (op : ArithOp) (kind : OperandKind) (left right : String)
  | ordering (op : OrderOp) (left right : String)
  | negation (found : String)
  | slot (error : SlotError)
deriving DecidableEq, Repr

inductive FaultCause
  | mistype (cause : Mistype)
  | divisionByZero
  | textTooLong (bytes : Nat)
  | negativeExponent (exponent : Int64)
  | shiftOutOfRange (amount : Int64)
  /-- A text that is not the text of a number. -/
  | unreadable (text : String) (target : CastTarget)
  | callDepth (limit : Nat)
  | doubleRelease (name : String)
  | unknownEntry (name : String)
  | entryArity (name : String) (arity : Nat)
  | unknownBuiltin (name : String)
  | builtin (name message : String)
  | deadlock
  | malformed (cause : Malformed)
deriving DecidableEq, Repr

structure Fault where
  cause : FaultCause
  span : Option Span
  function : Option String
deriving DecidableEq, Repr

namespace CastTarget

def name : CastTarget → String
  | int => "int"
  | float => "float"
  | bool => "bool"
  | string => "string"

end CastTarget

namespace Mistype

def message : Mistype → String
  | operands op l r =>
    "operator " ++ code op.symbol ++ " cannot be applied to " ++ code l ++ " and " ++ code r
  | negation t => "cannot negate a value of type " ++ code t
  | conversion t target => "cannot convert " ++ code t ++ " to " ++ code target.name
  | notCallable t => "value of type " ++ code t ++ " is not callable"
  | noMethod t m => "value of type " ++ code t ++ " has no method " ++ code m
  | structNoMethod s m => code s ++ " has no method " ++ code m
  | noField t f => "value of type " ++ code t ++ " has no field " ++ code f
  | structNoField s f => code s ++ " has no field " ++ code f
  | notTask t => "cannot await a value of type " ++ code t
  | argumentCount f expected found =>
    code f ++ " expects " ++ Decimal.natText expected ++ " arguments, got " ++
      Decimal.natText found
  | builtinArgument i f t =>
    "argument " ++ Decimal.natText i ++ " of " ++ code f ++ ": found " ++ code t
  | shape expected found => "expected " ++ code expected ++ ", found " ++ code found
  | asyncCall f => "async function " ++ code f ++ " cannot be called dynamically"
  | argument i f cause =>
    "argument " ++ Decimal.natText i ++ " of " ++ code f ++ ": " ++ message cause
  | stated text => text

end Mistype

namespace Malformed

def message : Malformed → String
  | noFrame => "no active frame"
  | pastEnd ip f => "IP " ++ Decimal.natText ip ++ " out of bounds in " ++ code f
  | noConstant i => "bad constant index " ++ Decimal.natText i
  | emptyDup => "DUP on empty stack"
  | underflow => "operand stack underflow"
  | fieldRange i => "field " ++ Decimal.natText i ++ " out of range"
  | fieldAccess t => "field access on " ++ code t
  | fieldMissing f => "field " ++ code f ++ " missing"
  | captureRange i => "capture " ++ Decimal.natText i ++ " out of range"
  | noFunction id => "unknown function " ++ Decimal.natText id
  | noStruct id => "unknown struct " ++ Decimal.natText id
  | notCallable t => "call of a " ++ code t ++ " value"
  | awaitsItself => "task awaits itself"
  | noTask id => "unknown task " ++ Decimal.natText id
  | noResult id => "task " ++ Decimal.natText id ++ " completed without a result"
  | unlinked id => "unlinked native " ++ Decimal.natText id
  | condition => "condition is not a bool"
  | operands op kind l r =>
    code op.symbol ++ " on " ++ kind.tag ++ " operands got " ++ code l ++ " and " ++ code r
  | ordering op l r =>
    "operator " ++ code op.symbol ++ " cannot be applied to " ++ code l ++ " and " ++ code r
  | negation t => "negation of " ++ code t
  | slot e => e.message

end Malformed

namespace FaultCause

def message : FaultCause → String
  | mistype m => "runtime type error: " ++ m.message
  | divisionByZero => "division by zero"
  | textTooLong bytes =>
    "string of " ++ Decimal.natText bytes ++ " bytes exceeds the limit of " ++
      Decimal.natText maxTextBytes
  | negativeExponent n => "negative exponent " ++ Decimal.wordText n ++ " in integer `**`"
  | shiftOutOfRange n => "shift amount " ++ Decimal.wordText n ++ " is outside 0..=63"
  | unreadable s target => "invalid conversion: " ++ code s ++ " is not a valid " ++ target.name
  | callDepth limit => "call depth exceeded the limit of " ++ Decimal.natText limit
  | doubleRelease name => "binding " ++ code name ++ " was released twice"
  | unknownEntry name => "unknown entry function " ++ code name
  | entryArity name arity =>
    "entry function " ++ code name ++ " must take no parameters, but takes " ++
      Decimal.natText arity
  | unknownBuiltin name => "native function " ++ code name ++ " is not registered"
  | builtin name message => name ++ ": " ++ message
  | deadlock => "deadlock: the entry task is waiting on a task that can never complete"
  | malformed m => "internal VM error: " ++ m.message

end FaultCause

namespace Fault

/-- A fault that no instruction has been blamed for. -/
def of (cause : FaultCause) : Fault := ⟨cause, none, none⟩

def message (f : Fault) : String := f.cause.message

/-- Blames an instruction, unless one is blamed already. -/
def located (f : Fault) (span : Option Span) (function : String) : Fault :=
  match f.function with
  | none => { f with span, function := some function }
  | some _ => f

@[simp]
theorem located_located (f : Fault) (s t : Option Span) (g h : String) :
    (f.located s g).located t h = f.located s g := by
  rcases f with ⟨cause, span, _ | function⟩ <;> rfl

end Fault

end ScopedScript
