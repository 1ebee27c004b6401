/-!
# Programs as trees

A program is a list of struct and function declarations. Its trees are made by a separate
parser, so every node may carry the span of source text that it came from, and nothing about a
tree is known to be well formed until it has been checked.
-/

namespace ScopedScript

/-- A half-open range of byte offsets into the source text. -/
structure Span where
  start : Nat
  stop : Nat
deriving DecidableEq, Repr, Inhabited

/-- A type as it is written in a program. -/
inductive TypeExpr
  | int
  | float
  | bool
  | string
  | void
  | any
  | named (name : String)
  | function (params : List TypeExpr) (ret : TypeExpr)
  | nullable (inner : TypeExpr)
  | task (inner : TypeExpr)
deriving Repr, Inhabited

/-- Operators that build a new value from two operands. -/
inductive ArithOp
  | add
  | sub
  | mul
  | div
  | mod
  | pow
  | shl
  | shr
deriving DecidableEq, Repr

/-- Operators that order two operands. -/
inductive OrderOp
  | lt
  | le
  | gt
  | ge
deriving DecidableEq, Repr

inductive BinaryOp
  | arith (op : ArithOp)
  | order (op : OrderOp)
  | eq
  | ne
deriving DecidableEq, Repr

inductive UnaryOp
  | neg
  | not
deriving DecidableEq, Repr

inductive LogicalOp
  | and
  | or
deriving DecidableEq, Repr

namespace ArithOp

def symbol : ArithOp → String
  | add => "+"
  | sub => "-"
  | mul => "*"
  | div => "/"
  | mod => "%"
  | pow => "**"
  | shl => "<<"
  | shr => ">>"

/-- Shifts take integer operands only. -/
def isShift : ArithOp → Bool
  | shl | shr => true
  | _ => false

end ArithOp

namespace OrderOp

def symbol : OrderOp → String
  | lt => "<"
  | le => "<="
  | gt => ">"
  | ge => ">="

/-- Whether the operator accepts operands that compare as `o`. -/
def holds : OrderOp → Ordering → Bool
  | lt, o => o == .lt
  | le, o => o != .gt
  | gt, o => o == .gt
  | ge, o => o != .lt

end OrderOp

namespace BinaryOp

def symbol : BinaryOp → String
  | arith op => op.symbol
  | order op => op.symbol
  | eq => "=="
  | ne => "!="

/-- Comparisons, which are the operators whose result is a `bool`. -/
def isComparison : BinaryOp → Bool
  | arith _ => false
  | _ => true

end BinaryOp

/-- A parameter of a function, method or lambda. -/
structure Param where
  name : String
  type : TypeExpr
  mutable : Bool
  span : Option Span
deriving Repr

mutual

inductive Expr
  | int (value : Int64) (span : Option Span)
  | float (value : Float) (span : Option Span)
  | bool (value : Bool) (span : Option Span)
  | string (value : String) (span : Option Span)
  | null (span : Option Span)
  | name (name : String) (span : Option Span)
  | binary (op : BinaryOp) (left right : Expr) (span : Option Span)
  | unary (op : UnaryOp) (operand : Expr) (span : Option Span)
  | logical (op : LogicalOp) (left right : Expr) (span : Option Span)
  | call (callee : Expr) (args : List Expr) (span : Option Span)
  | methodCall (object : Expr) (method : String) (args : List Expr) (span : Option Span)
  | field (object : Expr) (field : String) (span : Option Span)
  | structInit (name : String) (fields : List (String × Expr)) (span : Option Span)
  | lambda (params : List Param) (ret : Option TypeExpr) (body : List Stmt) (span : Option Span)
  | spawn (call : Expr) (span : Option Span)
  | await (task : Expr) (span : Option Span)
  | cast (value : Expr) (type : TypeExpr) (span : Option Span)
  | format (parts : List Expr) (span : Option Span)

inductive Stmt
  | declare (name : String) (mutable : Bool) (type : Option TypeExpr) (value : Option Expr)
      (span : Option Span)
  | assign (target value : Expr) (span : Option Span)
  | branch (condition : Expr) (thenBlock : List Stmt) (elifs : List (Expr × List Stmt))
      (elseBlock : Option (List Stmt)) (span : Option Span)
  | loop (condition : Expr) (body : List Stmt) (span : Option Span)
  | block (body : List Stmt) (span : Option Span)
  | ret (value : Option Expr) (span : Option Span)
  | breakLoop (span : Option Span)
  | continueLoop (span : Option Span)
  | free (name : String) (span : Option Span)
  | collect (span : Option Span)
  | yieldNow (span : Option Span)
  | eval (expr : Expr) (span : Option Span)

end

namespace Expr

def span : Expr → Option Span
  | int _ s | float _ s | bool _ s | string _ s | null s | name _ s | binary _ _ _ s
  | unary _ _ s | logical _ _ _ s | call _ _ s | methodCall _ _ _ s | field _ _ s
  | structInit _ _ s | lambda _ _ _ s | spawn _ s | await _ s | cast _ _ s | format _ s => s

end Expr

namespace Stmt

def span : Stmt → Option Span
  | declare _ _ _ _ s | assign _ _ s | branch _ _ _ _ s | loop _ _ s | block _ s | ret _ s
  | breakLoop s | continueLoop s | free _ s | collect s | yieldNow s | eval _ s => s

end Stmt

structure FunctionDecl where
  name : String
  params : List Param
  ret : Option TypeExpr
  body : List Stmt
  isAsync : Bool
  span : Option Span

structure FieldDecl where
  name : String
  type : TypeExpr
  span : Option Span

/-- A struct with its fixed method table; every method receives the instance as `self`. -/
structure StructDecl where
  name : String
  fields : List FieldDecl
  methods : List FunctionDecl
  span : Option Span

inductive Item
  | struct (decl : StructDecl)
  | function (decl : FunctionDecl)

structure Program where
  items : List Item
  /-- The text that spans point into, when the parser hands it over. -/
  source : Option String

namespace Program

def structs (p : Program) : List StructDecl :=
  p.items.filterMap fun
    | .struct d => some d
    | .function _ => none

def functions (p : Program) : List FunctionDecl :=
  p.items.filterMap fun
    | .function d => some d
    | .struct _ => none

end Program

end ScopedScript
