import ScopedScript.Ty

/-!
# Checked programs

Every expression carries its type, every call its target, and every place where a value enters or
leaves `any` is a node of its own.
-/

namespace ScopedScript

/-- A parameter with its checked type. -/
structure TParam where
  name : String
  ty : Ty
  mutable : Bool
  span : Option Span
deriving Repr

/-- What an assignment writes to: a binding, or a field reached from it by field indices. -/
structure AssignTarget where
  name : String
  path : List Nat
  span : Option Span
deriving Repr

/-- A call whose target is known by name. The receiver of a method is its first argument. -/
inductive Callee
  | function (name : String)
  | method (struct method : String)
  | native (name : String)
deriving DecidableEq, Repr

mutual

inductive TExpr
  | mk (kind : TKind) (ty : Ty) (span : Option Span)

inductive TKind
  | int (value : Int64)
  | float (value : Float)
  | bool (value : Bool)
  | string (value : String)
  | null
  /-- A local, a parameter or a capture. -/
  | binding (name : String)
  | function (name : String)
  | native (name : String)
  | binary (op : BinaryOp) (left right : TExpr)
  | unary (op : UnaryOp) (operand : TExpr)
  | logical (op : LogicalOp) (left right : TExpr)
  | call (callee : Callee) (args : List TExpr)
  /-- A call through a function value of known type. -/
  | callValue (callee : TExpr) (args : List TExpr)
  /-- A call through a value of type `any`. -/
  | callDynamic (callee : TExpr) (args : List TExpr)
  /-- A method of a receiver of type `any`, which is the first argument. -/
  | callMethodDynamic (method : String) (args : List TExpr)
  /-- The index is unknown when the object is of type `any`. -/
  | field (object : TExpr) (field : String) (index : Option Nat)
  /-- Values in the order of the declared fields. -/
  | structInit (name : String) (values : List TExpr)
  /-- The captures are the outer bindings used in the body, in the order of first use. -/
  | lambda (params : List TParam) (ret : Ty) (body : List TStmt) (captures : List String)
  | spawn (function : String) (args : List TExpr)
  | await (task : TExpr)
  /-- A value entering `any`. -/
  | box (inner : TExpr)
  /-- A value leaving `any` for the type of the node. -/
  | unbox (inner : TExpr)
  /-- A conversion to the type of the node. -/
  | cast (inner : TExpr)
  | format (parts : List TExpr)

inductive TStmt
  | declare (name : String) (mutable : Bool) (ty : Ty) (value : Option TExpr) (span : Option Span)
  | assign (target : AssignTarget) (value : TExpr) (span : Option Span)
  | branch (condition : TExpr) (thenBlock : List TStmt) (elifs : List (TExpr × List TStmt))
      (elseBlock : Option (List TStmt)) (span : Option Span)
  | loop (condition : TExpr) (body : List TStmt) (span : Option Span)
  | block (body : List TStmt) (span : Option Span)
  | ret (value : Option TExpr) (span : Option Span)
  | breakLoop (span : Option Span)
  | continueLoop (span : Option Span)
  | free (name : String) (span : Option Span)
  | collect (span : Option Span)
  | yieldNow (span : Option Span)
  | eval (expr : TExpr) (span : Option Span)

end

namespace TExpr

def kind : TExpr → TKind
  | mk k _ _ => k

def ty : TExpr → Ty
  | mk _ t _ => t

def span : TExpr → Option Span
  | mk _ _ s => s

@[simp]
theorem kind_mk (k : TKind) (t : Ty) (s : Option Span) : (mk k t s).kind = k := rfl

@[simp]
theorem ty_mk (k : TKind) (t : Ty) (s : Option Span) : (mk k t s).ty = t := rfl

@[simp]
theorem span_mk (k : TKind) (t : Ty) (s : Option Span) : (mk k t s).span = s := rfl

instance : Inhabited TExpr := ⟨mk .null .any none⟩

end TExpr

namespace TStmt

def span : TStmt → Option Span
  | declare _ _ _ _ s | assign _ _ s | branch _ _ _ _ s | loop _ _ s | block _ s | ret _ s
  | breakLoop s | continueLoop s | free _ s | collect s | yieldNow s | eval _ s => s

end TStmt

/-- A struct with its field types; method `m` is the function `Struct.m`. -/
structure StructInfo where
  name : String
  fields : List (String × Ty)
  methods : List String
  span : Option Span

/-- The name under which a method stands among the functions. -/
def methodSymbol (struct method : String) : String := struct ++ "." ++ method

/-- A function or a method, whose first parameter is then `self`. -/
structure TFunction where
  name : String
  params : List TParam
  ret : Ty
  body : List TStmt
  isAsync : Bool
  span : Option Span

structure TProgram where
  structs : List StructInfo
  functions : List TFunction
  source : Option String

/-- The first function of this name. -/
def TProgram.function? (p : TProgram) (name : String) : Option TFunction :=
  p.functions.find? fun f => f.name == name

end ScopedScript
