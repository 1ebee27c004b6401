import ScopedScript.Decimal.Integer
import ScopedScript.Ty

/-!
# Errors of the checker

An error is a cause and the span it concerns. `TypeError.message` words every cause.
-/

namespace ScopedScript

/-- Uses of a value that may be null or may have no value yet. -/
inductive NullMisuse
  | negation (found : Ty)
  | fieldAccess (field : String) (found : Ty)
  | awaiting (found : Ty)
  | conversion (found target : Ty)
  | storingNull (target : Ty)
  | storingNullable (found target : Ty)
  | maybeUninitialized (name : String)
  | uninitialized (name : String)
  | operands (op : BinaryOp) (left right : Ty)
  | calling (found : Ty)
  | methodCall (method : String) (found : Ty)
  | fieldOfUninitialized (name : String)
  | fieldWrite (field : String) (found : Ty)
deriving Repr

/-- What an unknown name was meant to be. -/
inductive NameRole
  | type
  | field
  | name
  | method
  | struct
  | binding
deriving DecidableEq, Repr

/-- Programs that break a rule which is not about the type of one value. -/
inductive Misuse
  | duplicateStruct (name : String)
  | duplicateField (field struct : String)
  | duplicateMethod (struct method : String)
  | duplicateFunction (name : String)
  | duplicateParam (name : String)
  | asyncMethod (struct method : String)
  | functionEnds (name : String) (ret : Ty)
  | lambdaEnds (ret : Ty)
  | noField (found : Ty) (field : String)
  | noMethod (found : Ty) (method : String)
  | spawnOfOther
  | awaitOutsideAsync
  | yieldOutsideAsync
  | formatVoid
  | conversionTarget (target : Ty)
  | conversion (found target : Ty)
  | asyncAsValue (name : String)
  | asyncNotStarted (name : String)
  | shiftOperands (op : ArithOp) (left right : Ty)
  | operands (op : ArithOp) (left right : Ty)
  | notCallable (found : Ty)
  | fieldTwice (field : String)
  | missingField (field struct : String)
  | outsideLoop (keyword : String)
  | freeCapture (name : String)
  | inferFromNull (name : String)
  | needsType (name : String)
  | assignTarget
  | assignFunction (name : String)
  | assignAnyField (field : String)
deriving Repr

inductive TypeCause
  | mismatch (expected found : Ty)
  | immutable (name : String) (declaredAt : Option Span)
  | nullSafety (misuse : NullMisuse)
  | unresolved (role : NameRole) (name : String)
  | arity (callee : String) (expected found : Nat)
  | invalid (misuse : Misuse)
deriving Repr

structure TypeError where
  cause : TypeCause
  span : Option Span
deriving Repr

/-- A name or a type between backquotes. -/
def code (s : String) : String := "`" ++ s ++ "`"

namespace NullMisuse

def message : NullMisuse → String
  | negation t => "cannot negate a possibly-null " ++ code t.text
  | fieldAccess f t => "cannot access field " ++ code f ++ " of a possibly-null " ++ code t.text
  | awaiting t => "cannot await a possibly-null " ++ code t.text
  | conversion t u => "cannot convert a possibly-null " ++ code t.text ++ " to " ++ code u.text
  | storingNull t => "`null` cannot be stored in non-nullable " ++ code t.text
  | storingNullable t u =>
    "a possibly-null " ++ code t.text ++ " cannot be stored in non-nullable " ++ code u.text
  | maybeUninitialized n => code n ++ " may be used before it is initialized"
  | uninitialized n => code n ++ " is used before it is initialized"
  | operands op l r =>
    "operator " ++ code op.symbol ++ " cannot be applied to possibly-null operands (" ++ l.text ++
      ", " ++ r.text ++ ")"
  | calling t => "cannot call a possibly-null " ++ code t.text
  | methodCall m t => "cannot call method " ++ code m ++ " on a possibly-null " ++ code t.text
  | fieldOfUninitialized n =>
    code n ++ " is not initialized on every path before its field is assigned"
  | fieldWrite f t => "cannot assign field " ++ code f ++ " of a possibly-null " ++ code t.text

end NullMisuse

namespace NameRole

def word : NameRole → String
  | type => "type"
  | field => "field"
  | name => "name"
  | method => "method"
  | struct => "struct"
  | binding => "variable"

end NameRole

namespace Misuse

def message : Misuse → String
  | duplicateStruct n => "struct " ++ code n ++ " is declared more than once"
  | duplicateField f s => "field " ++ code f ++ " is declared more than once in " ++ code s
  | duplicateMethod s m => "method " ++ code (s ++ "." ++ m) ++ " is declared more than once"
  | duplicateFunction n => "function " ++ code n ++ " is declared more than once"
  | duplicateParam n => "parameter " ++ code n ++ " is declared more than once"
  | asyncMethod s m => "method " ++ code (s ++ "." ++ m) ++ " cannot be async"
  | functionEnds n t =>
    "function " ++ code n ++ " may reach the end without returning a value of type " ++ code t.text
  | lambdaEnds t => "lambda may reach the end without returning a value of type " ++ code t.text
  | noField t f => "type " ++ code t.text ++ " has no field " ++ code f
  | noMethod t m => "type " ++ code t.text ++ " has no method " ++ code m
  | spawnOfOther => "`spawn` expects a call to an async function"
  | awaitOutsideAsync => "`await` is only allowed inside async functions"
  | yieldOutsideAsync => "`yield` is only allowed inside async functions"
  | formatVoid => "a `void` value cannot be formatted"
  | conversionTarget t =>
    "cannot convert to " ++ code t.text ++
      "; only `int`, `float`, `bool` and `string` are conversion targets"
  | conversion t u => "cannot convert " ++ code t.text ++ " to " ++ code u.text
  | asyncAsValue n => "async function " ++ code n ++ " cannot be used as a value"
  | asyncNotStarted n =>
    "async function " ++ code n ++ " must be started with `spawn` or `await`"
  | shiftOperands op l r =>
    "operator " ++ code op.symbol ++ " needs `int` operands, found " ++ code l.text ++ " and " ++
      code r.text
  | operands op l r =>
    "operator " ++ code op.symbol ++ " cannot be applied to " ++ code l.text ++ " and " ++
      code r.text
  | notCallable t => "type " ++ code t.text ++ " is not callable"
  | fieldTwice f => "field " ++ code f ++ " is initialized more than once"
  | missingField f s => "missing field " ++ code f ++ " in initializer of " ++ code s
  | outsideLoop k => code k ++ " outside of a loop"
  | freeCapture n => "cannot free " ++ code n ++ ": it is a copy captured by this lambda"
  | inferFromNull n =>
    "cannot infer the type of " ++ code n ++ " from `null`; annotate it as `T?`"
  | needsType n => code n ++ " needs a type annotation or an initializer"
  | assignTarget => "invalid assignment target"
  | assignFunction n => "cannot assign to function " ++ code n
  | assignAnyField f => "cannot assign field " ++ code f ++ " of an `any` value"

end Misuse

namespace TypeCause

def message : TypeCause → String
  | mismatch expected found =>
    "type mismatch: expected " ++ expected.text ++ ", found " ++ found.text
  | immutable name _ => "cannot assign to immutable binding " ++ code name
  | nullSafety m => m.message
  | unresolved role name => "unknown " ++ role.word ++ " " ++ code name
  | arity callee expected found =>
    code callee ++ " takes " ++ Decimal.natText expected ++ " argument(s) but " ++
      Decimal.natText found ++ " were supplied"
  | invalid m => m.message

end TypeCause

def TypeError.message (e : TypeError) : String := e.cause.message

end ScopedScript
