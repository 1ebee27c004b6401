import ScopedScript.Tree.Shape

/-!
# Reading program trees

Every list, pair, record and variant with a body takes one level of nesting, and a tree that
needs more levels than it is given is refused. The level is also what the recursion descends on.
-/

namespace ScopedScript.Tree

variable {δ : Type} (s : Shape δ)

def binaryTags : List (String × BinaryOp) :=
  [("Add", .arith .add), ("Sub", .arith .sub), ("Mul", .arith .mul), ("Div", .arith .div),
   ("Mod", .arith .mod), ("Pow", .arith .pow), ("Shl", .arith .shl), ("Shr", .arith .shr),
   ("Eq", .eq), ("Ne", .ne), ("Lt", .order .lt), ("Le", .order .le), ("Gt", .order .gt),
   ("Ge", .order .ge)]

def unaryTags : List (String × UnaryOp) := [("Neg", .neg), ("Not", .not)]

def logicalTags : List (String × LogicalOp) := [("And", .and), ("Or", .or)]

def plainTypeTags : List (String × TypeExpr) :=
  [("Int", .int), ("Float", .float), ("Bool", .bool), ("String", .string), ("Void", .void),
   ("Any", .any)]

mutual

def readType : Nat → δ → Option TypeExpr
  | 0, d => s.tag? 0 plainTypeTags d
  | level + 1, d =>
    match s.variant? d with
    | some ("Named", some body) => ((s.content? body).bind s.text?).map .named
    | some ("Nullable", some body) => ((s.content? body).bind (readType level)).map .nullable
    | some ("Task", some body) => ((s.content? body).bind (readType level)).map .task
    | some ("Function", some body) => readFunctionType level body
    | _ => s.tag? 1 plainTypeTags d

def readFunctionType : Nat → δ → Option TypeExpr
  | 0, _ => none
  | level + 1, d => do
    let f ← s.fields? "" ["params", "ret"] d
    let params ← f.required "params" (readTypes level)
    let ret ← f.required "ret" (readType level)
    return .function params ret

def readTypes : Nat → δ → Option (List TypeExpr)
  | 0, _ => none
  | level + 1, d => (s.items? d).bind fun items => items.mapM (readType level)

end

def readParam (level : Nat) (d : δ) : Option Param :=
  match level with
  | 0 => none
  | level + 1 => do
    let f ← s.fields? "Param" ["name", "type", "mutable", "span"] d
    let name ← f.required "name" s.text?
    let type ← f.required "type" (readType s level)
    let mutable ← f.defaulted "mutable" false s.bool?
    let span ← f.optional s "span" (s.span? level)
    return { name, type, mutable, span }

mutual

def readExpr : Nat → δ → Option Expr
  | 0, _ => none
  | level + 1, d =>
    match s.variant? d with
    | some (tag, some body) => readExprBody tag level body
    | _ => none

/-- An expression from the fields of its body, by its tag. -/
def readExprBody (tag : String) : Nat → δ → Option Expr
  | 0, _ => none
  | level + 1, d =>
    match tag with
    | "Int" => do
      let f ← s.fields? "" ["value", "span"] d
      let value ← f.required "value" s.word?
      return .int value (← f.optional s "span" (s.span? level))
    | "Float" => do
      let f ← s.fields? "" ["value", "span"] d
      let value ← f.required "value" s.float?
      return .float value (← f.optional s "span" (s.span? level))
    | "Bool" => do
      let f ← s.fields? "" ["value", "span"] d
      let value ← f.required "value" s.bool?
      return .bool value (← f.optional s "span" (s.span? level))
    | "String" => do
      let f ← s.fields? "" ["value", "span"] d
      let value ← f.required "value" s.text?
      return .string value (← f.optional s "span" (s.span? level))
    | "Null" => do
      let f ← s.fields? "" ["span"] d
      return .null (← f.optional s "span" (s.span? level))
    | "Identifier" => do
      let f ← s.fields? "" ["name", "span"] d
      let name ← f.required "name" s.text?
      return .name name (← f.optional s "span" (s.span? level))
    | "Binary" => do
      let f ← s.fields? "" ["left", "op", "right", "span"] d
      let left ← f.required "left" (readExpr level)
      let op ← f.required "op" (s.tag? level binaryTags)
      let right ← f.required "right" (readExpr level)
      return .binary op left right (← f.optional s "span" (s.span? level))
    | "Unary" => do
      let f ← s.fields? "" ["op", "operand", "span"] d
      let op ← f.required "op" (s.tag? level unaryTags)
      let operand ← f.required "operand" (readExpr level)
      return .unary op operand (← f.optional s "span" (s.span? level))
    | "Logical" => do
      let f ← s.fields? "" ["left", "op", "right", "span"] d
      let left ← f.required "left" (readExpr level)
      let op ← f.required "op" (s.tag? level logicalTags)
      let right ← f.required "right" (readExpr level)
      return .logical op left right (← f.optional s "span" (s.span? level))
    | "Call" => do
      let f ← s.fields? "" ["callee", "arguments", "span"] d
      let callee ← f.required "callee" (readExpr level)
      let args ← f.required "arguments" (readExprs level)
      return .call callee args (← f.optional s "span" (s.span? level))
    | "MethodCall" => do
      let f ← s.fields? "" ["object", "method", "arguments", "span"] d
      let object ← f.required "object" (readExpr level)
      let method ← f.required "method" s.text?
      let args ← f.required "arguments" (readExprs level)
      return .methodCall object method args (← f.optional s "span" (s.span? level))
    | "Field" => do
      let f ← s.fields? "" ["object", "field", "span"] d
      let object ← f.required "object" (readExpr level)
      let field ← f.required "field" s.text?
      return .field object field (← f.optional s "span" (s.span? level))
    | "StructInit" => do
      let f ← s.fields? "" ["name", "fields", "span"] d
      let name ← f.required "name" s.text?
      let fields ← f.required "fields" (readInits level)
      return .structInit name fields (← f.optional s "span" (s.span? level))
    | "Lambda" => do
      let f ← s.fields? "" ["params", "return_type", "body", "span"] d
      let params ← f.required "params" (s.list? level (readParam s))
      let ret ← f.optional s "return_type" (readType s level)
      let body ← f.required "body" (readStmts level)
      return .lambda params ret body (← f.optional s "span" (s.span? level))
    | "Spawn" => do
      let f ← s.fields? "" ["call", "span"] d
      let call ← f.required "call" (readExpr level)
      return .spawn call (← f.optional s "span" (s.span? level))
    | "Await" => do
      let f ← s.fields? "" ["task", "span"] d
      let task ← f.required "task" (readExpr level)
      return .await task (← f.optional s "span" (s.span? level))
    | "Cast" => do
      let f ← s.fields? "" ["value", "type", "span"] d
      let value ← f.required "value" (readExpr level)
      let type ← f.required "type" (readType s level)
      return .cast value type (← f.optional s "span" (s.span? level))
    | "Format" => do
      let f ← s.fields? "" ["parts", "span"] d
      let parts ← f.required "parts" (readExprs level)
      return .format parts (← f.optional s "span" (s.span? level))
    | _ => none

def readExprs : Nat → δ → Option (List Expr)
  | 0, _ => none
  | level + 1, d => (s.items? d).bind fun items => items.mapM (readExpr level)

/-- The fields of a struct initializer, which are pairs of a name and a value. -/
def readInits : Nat → δ → Option (List (String × Expr))
  | 0, _ => none
  | level + 1, d => (s.items? d).bind fun items => items.mapM (readInit level)

def readInit : Nat → δ → Option (String × Expr)
  | 0, _ => none
  | level + 1, d => do
    let (name, value) ← s.pair? d
    let name ← s.text? name
    let value ← readExpr level value
    return (name, value)

def readStmt : Nat → δ → Option Stmt
  | 0, _ => none
  | level + 1, d =>
    match s.variant? d with
    | some (tag, some body) => readStmtBody tag level body
    | _ => none

/-- A statement from the fields of its body, by its tag. -/
def readStmtBody (tag : String) : Nat → δ → Option Stmt
  | 0, _ => none
  | level + 1, d =>
    match tag with
    | "Let" => do
      let f ← s.fields? "" ["name", "mutable", "type", "value", "span"] d
      let name ← f.required "name" s.text?
      let mutable ← f.defaulted "mutable" false s.bool?
      let type ← f.optional s "type" (readType s level)
      let value ← f.optional s "value" (readExpr level)
      return .declare name mutable type value (← f.optional s "span" (s.span? level))
    | "Assign" => do
      let f ← s.fields? "" ["target", "value", "span"] d
      let target ← f.required "target" (readExpr level)
      let value ← f.required "value" (readExpr level)
      return .assign target value (← f.optional s "span" (s.span? level))
    | "If" => do
      let f ← s.fields? "" ["condition", "then_block", "elif_blocks", "else_block", "span"] d
      let condition ← f.required "condition" (readExpr level)
      let thenBlock ← f.required "then_block" (readStmts level)
      let elifs ← f.defaulted "elif_blocks" [] (readElifs level)
      let elseBlock ← f.optional s "else_block" (readStmts level)
      return .branch condition thenBlock elifs elseBlock (← f.optional s "span" (s.span? level))
    | "While" => do
      let f ← s.fields? "" ["condition", "body", "span"] d
      let condition ← f.required "condition" (readExpr level)
      let body ← f.required "body" (readStmts level)
      return .loop condition body (← f.optional s "span" (s.span? level))
    | "Block" => do
      let f ← s.fields? "" ["statements", "span"] d
      let body ← f.required "statements" (readStmts level)
      return .block body (← f.optional s "span" (s.span? level))
    | "Return" => do
      let f ← s.fields? "" ["value", "span"] d
      let value ← f.optional s "value" (readExpr level)
      return .ret value (← f.optional s "span" (s.span? level))
    | "Break" => do
      let f ← s.fields? "" ["span"] d
      return .breakLoop (← f.optional s "span" (s.span? level))
    | "Continue" => do
      let f ← s.fields? "" ["span"] d
      return .continueLoop (← f.optional s "span" (s.span? level))
    | "Free" => do
      let f ← s.fields? "" ["name", "span"] d
      let name ← f.required "name" s.text?
      return .free name (← f.optional s "span" (s.span? level))
    | "Collect" => do
      let f ← s.fields? "" ["span"] d
      return .collect (← f.optional s "span" (s.span? level))
    | "Yield" => do
      let f ← s.fields? "" ["span"] d
      return .yieldNow (← f.optional s "span" (s.span? level))
    | "ExprStmt" => do
      let f ← s.fields? "" ["expr", "span"] d
      let expr ← f.required "expr" (readExpr level)
      return .eval expr (← f.optional s "span" (s.span? level))
    | _ => none

def readStmts : Nat → δ → Option (List Stmt)
  | 0, _ => none
  | level + 1, d => (s.items? d).bind fun items => items.mapM (readStmt level)

/-- The further branches of an `if`, which are pairs of a condition and a block. -/
def readElifs : Nat → δ → Option (List (Expr × List Stmt))
  | 0, _ => none
  | level + 1, d => (s.items? d).bind fun items => items.mapM (readElif level)

def readElif : Nat → δ → Option (Expr × List Stmt)
  | 0, _ => none
  | level + 1, d => do
    let (condition, body) ← s.pair? d
    let condition ← readExpr level condition
    let body ← readStmts level body
    return (condition, body)

end

def readFunction (level : Nat) (d : δ) : Option FunctionDecl :=
  match level with
  | 0 => none
  | level + 1 => do
    let f ← s.fields? "FunctionDecl" ["name", "params", "return_type", "body", "is_async", "span"] d
    let name ← f.required "name" s.text?
    let params ← f.required "params" (s.list? level (readParam s))
    let ret ← f.optional s "return_type" (readType s level)
    let body ← f.required "body" (readStmts s level)
    let isAsync ← f.defaulted "is_async" false s.bool?
    let span ← f.optional s "span" (s.span? level)
    return { name, params, ret, body, isAsync, span }

def readField (level : Nat) (d : δ) : Option FieldDecl :=
  match level with
  | 0 => none
  | level + 1 => do
    let f ← s.fields? "Field" ["name", "type", "span"] d
    let name ← f.required "name" s.text?
    let type ← f.required "type" (readType s level)
    let span ← f.optional s "span" (s.span? level)
    return { name, type, span }

def readStruct (level : Nat) (d : δ) : Option StructDecl :=
  match level with
  | 0 => none
  | level + 1 => do
    let f ← s.fields? "StructDecl" ["name", "fields", "methods", "span"] d
    let name ← f.required "name" s.text?
    let fields ← f.required "fields" (s.list? level (readField s))
    let methods ← f.defaulted "methods" [] (s.list? level (readFunction s))
    let span ← f.optional s "span" (s.span? level)
    return { name, fields, methods, span }

def readItem (level : Nat) (d : δ) : Option Item :=
  match level with
  | 0 => none
  | level + 1 =>
    match s.variant? d with
    | some ("Struct", some body) => ((s.content? body).bind (readStruct s level)).map .struct
    | some ("Function", some body) => ((s.content? body).bind (readFunction s level)).map .function
    | _ => none

/-- A program of at most `level` nested levels. -/
def readProgram (level : Nat) (d : δ) : Option Program :=
  match level with
  | 0 => none
  | level + 1 => do
    let f ← s.fields? "Program" ["items", "source"] d
    let items ← f.required "items" (s.list? level (readItem s))
    let source ← f.optional s "source" s.text?
    return { items, source }

end ScopedScript.Tree

namespace ScopedScript

/-- How deep the lists and objects of a program tree may nest. -/
def Program.maxLevel : Nat := 127

/-- The program that a JSON value describes. -/
def Program.ofJson? (v : Json) : Option Program := Tree.readProgram Json.shape maxLevel v

end ScopedScript
