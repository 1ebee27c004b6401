import ScopedScript.Json.Basic
import ScopedScript.Syntax.Basic

/-!
# Writing program trees

A tree is written as a JSON value with every field in a fixed order. Spans, the source text and
the type of a `let` are left out when absent; other absent values are written as `null`. How a
float is written is up to the caller.
-/

namespace ScopedScript

/-- A variant with a body. -/
def Json.tagged (tag : String) (body : Json) : Json := .object [(tag, body)]

/-- A variant whose body is a record. -/
def Json.variant (tag : String) (members : List (String × Json)) : Json :=
  .tagged tag (.object members)

/-- A member that is left out when there is no value for it. -/
def Json.member? (name : String) (f : α → Json) : Option α → List (String × Json)
  | none => []
  | some a => [(name, f a)]

namespace Span

def toJson (s : Span) : Json := .object [("start", .ofNat s.start), ("end", .ofNat s.stop)]

def member? (s : Option Span) : List (String × Json) := Json.member? "span" toJson s

end Span

namespace TypeExpr

mutual

def toJson : TypeExpr → Json
  | int => .text "Int"
  | float => .text "Float"
  | bool => .text "Bool"
  | string => .text "String"
  | void => .text "Void"
  | any => .text "Any"
  | named name => .tagged "Named" (.text name)
  | function params ret =>
    .variant "Function" [("params", .list (toJsonList params)), ("ret", toJson ret)]
  | nullable inner => .tagged "Nullable" (toJson inner)
  | task inner => .tagged "Task" (toJson inner)

def toJsonList : List TypeExpr → List Json
  | [] => []
  | t :: rest => toJson t :: toJsonList rest

end

end TypeExpr

namespace ArithOp

def tag : ArithOp → String
  | add => "Add"
  | sub => "Sub"
  | mul => "Mul"
  | div => "Div"
  | mod => "Mod"
  | pow => "Pow"
  | shl => "Shl"
  | shr => "Shr"

end ArithOp

namespace OrderOp

def tag : OrderOp → String
  | lt => "Lt"
  | le => "Le"
  | gt => "Gt"
  | ge => "Ge"

end OrderOp

namespace BinaryOp

def tag : BinaryOp → String
  | arith op => op.tag
  | order op => op.tag
  | eq => "Eq"
  | ne => "Ne"

end BinaryOp

namespace UnaryOp

def tag : UnaryOp → String
  | neg => "Neg"
  | not => "Not"

end UnaryOp

namespace LogicalOp

def tag : LogicalOp → String
  | and => "And"
  | or => "Or"

end LogicalOp

def Param.toJson (p : Param) : Json :=
  .object ([("name", .text p.name), ("type", p.type.toJson), ("mutable", .bool p.mutable)] ++
    Span.member? p.span)

namespace Tree

variable (number : Float → Json)

mutual

def writeExpr : Expr → Json
  | .int value span => .variant "Int" (("value", .int value.toInt) :: Span.member? span)
  | .float value span => .variant "Float" (("value", number value) :: Span.member? span)
  | .bool value span => .variant "Bool" (("value", .bool value) :: Span.member? span)
  | .string value span => .variant "String" (("value", .text value) :: Span.member? span)
  | .null span => .variant "Null" (Span.member? span)
  | .name name span => .variant "Identifier" (("name", .text name) :: Span.member? span)
  | .binary op left right span =>
    .variant "Binary" ([("left", writeExpr left), ("op", .text op.tag), ("right", writeExpr right)]
      ++ Span.member? span)
  | .unary op operand span =>
    .variant "Unary" ([("op", .text op.tag), ("operand", writeExpr operand)] ++ Span.member? span)
  | .logical op left right span =>
    .variant "Logical" ([("left", writeExpr left), ("op", .text op.tag), ("right", writeExpr right)]
      ++ Span.member? span)
  | .call callee args span =>
    .variant "Call" ([("callee", writeExpr callee), ("arguments", .list (writeExprs args))] ++
      Span.member? span)
  | .methodCall object method args span =>
    .variant "MethodCall" ([("object", writeExpr object), ("method", .text method),
      ("arguments", .list (writeExprs args))] ++ Span.member? span)
  | .field object field span =>
    .variant "Field" ([("object", writeExpr object), ("field", .text field)] ++ Span.member? span)
  | .structInit name fields span =>
    .variant "StructInit" ([("name", .text name), ("fields", .list (writeInits fields))] ++
      Span.member? span)
  | .lambda params ret body span =>
    .variant "Lambda" ([("params", .list (params.map Param.toJson)),
      ("return_type", .ofOption TypeExpr.toJson ret), ("body", .list (writeStmts body))] ++
      Span.member? span)
  | .spawn call span => .variant "Spawn" (("call", writeExpr call) :: Span.member? span)
  | .await task span => .variant "Await" (("task", writeExpr task) :: Span.member? span)
  | .cast value type span =>
    .variant "Cast" ([("value", writeExpr value), ("type", type.toJson)] ++ Span.member? span)
  | .format parts span =>
    .variant "Format" (("parts", .list (writeExprs parts)) :: Span.member? span)

def writeExprs : List Expr → List Json
  | [] => []
  | e :: rest => writeExpr e :: writeExprs rest

def writeInits : List (String × Expr) → List Json
  | [] => []
  | (name, value) :: rest => .list [.text name, writeExpr value] :: writeInits rest

def writeStmt : Stmt → Json
  | .declare name mutable type value span =>
    .variant "Let" ([("name", .text name), ("mutable", .bool mutable)] ++
      Json.member? "type" TypeExpr.toJson type ++ [("value", writeOption value)] ++
      Span.member? span)
  | .assign target value span =>
    .variant "Assign" ([("target", writeExpr target), ("value", writeExpr value)] ++
      Span.member? span)
  | .branch condition thenBlock elifs elseBlock span =>
    .variant "If"
      ([("condition", writeExpr condition), ("then_block", .list (writeStmts thenBlock)),
      ("elif_blocks", .list (writeElifs elifs)), ("else_block", writeElse elseBlock)] ++
      Span.member? span)
  | .loop condition body span =>
    .variant "While" ([("condition", writeExpr condition), ("body", .list (writeStmts body))] ++
      Span.member? span)
  | .block body span =>
    .variant "Block" (("statements", .list (writeStmts body)) :: Span.member? span)
  | .ret value span => .variant "Return" (("value", writeOption value) :: Span.member? span)
  | .breakLoop span => .variant "Break" (Span.member? span)
  | .continueLoop span => .variant "Continue" (Span.member? span)
  | .free name span => .variant "Free" (("name", .text name) :: Span.member? span)
  | .collect span => .variant "Collect" (Span.member? span)
  | .yieldNow span => .variant "Yield" (Span.member? span)
  | .eval expr span => .variant "ExprStmt" (("expr", writeExpr expr) :: Span.member? span)

def writeOption : Option Expr → Json
  | none => .null
  | some e => writeExpr e

def writeElse : Option (List Stmt) → Json
  | none => .null
  | some body => .list (writeStmts body)

def writeStmts : List Stmt → List Json
  | [] => []
  | s :: rest => writeStmt s :: writeStmts rest

def writeElifs : List (Expr × List Stmt) → List Json
  | [] => []
  | (condition, body) :: rest =>
    .list [writeExpr condition, .list (writeStmts body)] :: writeElifs rest

end

def writeFunction (d : FunctionDecl) : Json :=
  .object ([("name", .text d.name), ("params", .list (d.params.map Param.toJson)),
    ("return_type", .ofOption TypeExpr.toJson d.ret), ("body", .list (writeStmts number d.body)),
    ("is_async", .bool d.isAsync)] ++ Span.member? d.span)

def writeField (d : FieldDecl) : Json :=
  .object ([("name", .text d.name), ("type", d.type.toJson)] ++ Span.member? d.span)

def writeStruct (d : StructDecl) : Json :=
  .object ([("name", .text d.name), ("fields", .list (d.fields.map writeField)),
    ("methods", .list (d.methods.map (writeFunction number)))] ++ Span.member? d.span)

def writeItem : Item → Json
  | .struct d => .tagged "Struct" (writeStruct number d)
  | .function d => .tagged "Function" (writeFunction number d)

def writeProgram (p : Program) : Json :=
  .object (("items", .list (p.items.map (writeItem number))) ::
    Json.member? "source" Json.text p.source)

end Tree

/-- A program as a JSON value. -/
def Program.toJson (p : Program) : Json := Tree.writeProgram Json.ofFloat p

end ScopedScript
