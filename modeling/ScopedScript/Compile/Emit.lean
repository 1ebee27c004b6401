import ScopedScript.Compile.Emitter

/-!
# Code of expressions and statements

Every emitter is given the address of its first line, so jumps are written with their final
targets. An expression leaves one value on the stack; a statement leaves the stack as it was.
-/

namespace ScopedScript

/-- What an operator may rely on, by the types of its operands. -/
def operandKind : Ty → Ty → OperandKind
  | .any, _ => .dynamic
  | _, .any => .dynamic
  | .int, .int => .int
  | .float, .float => .float
  | .string, _ => .string
  | _, _ => .dynamic

def BinaryOp.instr (op : BinaryOp) (kind : OperandKind) : Instr :=
  match op with
  | .arith a => .arith a kind
  | .order o => .order o kind
  | .eq => .eq
  | .ne => .ne

def UnaryOp.instr (op : UnaryOp) (operand : Ty) : Instr :=
  match op with
  | .neg => .neg (operandKind operand operand)
  | .not => .not

def castTarget? : Ty → Option CastTarget
  | .int => some .int
  | .float => some .float
  | .bool => some .bool
  | .string => some .string
  | _ => none

namespace Emit

variable (ids : Ids)

/-- Starts a nested function and gives back the state of the enclosing one. -/
def enterLambda (captures : List String) : Emit FnState :=
  modifyGet fun e =>
    let outer := { e.fn with lambdaCount := e.fn.lambdaCount + 1 }
    let name := outer.name ++ "#lambda" ++ Decimal.natText outer.lambdaCount
    (outer, { e with fn := .start name captures })

/-- Takes the code of a function whose body has been emitted. Control that reaches the end
returns `null`. -/
def finish (params : List TParam) (body : List Line) (isAsync : Bool) (span : Option Span) :
    Emit FunctionCode := do
  let last ← constant .null span
  let lines := body ++ last ++ [.of .ret span]
  let f := (← get).fn
  return {
    name := f.name
    arity := params.length
    slotCount := f.slotNames.size
    slotNames := f.slotNames
    paramTags := params.map fun p => ids.tagOf p.ty
    isAsync := isAsync
    captures := f.captures
    code := (lines.map Line.instr).toArray
    constants := f.constants
    spans := (lines.map Line.span).toArray }

/-- Goes back to the enclosing function and gives the nested one its index. -/
def exitLambda (outer : FnState) (code : FunctionCode) : Emit Nat :=
  modifyGet fun e =>
    (e.functions.size, { e with fn := outer, functions := e.functions.push (some code) })

def declareParams (params : List TParam) : Emit Unit :=
  params.forM fun p => do
    let _ ← declareBinding p.name p.span

mutual

def expr (start : Nat) : TExpr → Emit (List Line)
  | .mk kind ty span => kindCode start ty span kind

def kindCode (start : Nat) (ty : Ty) (span : Option Span) : TKind → Emit (List Line)
  | .int value => constant (.int value) span
  | .float value => constant (.float value) span
  | .bool value => constant (.bool value) span
  | .string value => constant (.string value) span
  | .null => constant .null span
  | .binding name => load name span
  | .function name =>
    match ids.functions.lookup name with
    | some id => return [.of (.makeClosure id 0) span]
    | none => unresolved "function" name span
  | .native name => do
    let id ← nativeId name
    return [.of (.loadNative id) span]
  | .binary op left right => do
    let l ← expr start left
    let r ← expr (start + l.length) right
    return l ++ r ++ [.of (op.instr (operandKind left.ty right.ty)) span]
  | .unary op operand => do
    let code ← expr start operand
    return code ++ [.of (op.instr operand.ty) span]
  | .logical op left right => do
    let l ← expr start left
    let rightStart := start + l.length + 3
    let r ← expr rightStart right
    let target := rightStart + r.length
    let jump := match op with
      | .and => Instr.jumpIfFalse target
      | .or => Instr.jumpIfTrue target
    -- the left value stays when it decides
    return l ++ [.of .dup span, .of jump span, .of .pop span] ++ r
  | .call callee args => do
    match callee with
    | .function name =>
      match ids.functions.lookup name with
      | some id =>
        let code ← exprs start args
        return code ++ [.of (.call id args.length) span]
      | none => unresolved "function" name span
    | .method struct method =>
      match ids.functions.lookup (methodSymbol struct method) with
      | some id =>
        let code ← exprs start args
        return code ++ [.of (.call id args.length) span]
      | none => unresolved "method" (methodSymbol struct method) span
    | .native name =>
      let id ← nativeId name
      let code ← exprs start args
      return code ++ [.of (.callNative id args.length) span]
  | .callValue callee args => do
    let c ← expr start callee
    let code ← exprs (start + c.length) args
    return c ++ code ++ [.of (.callValue args.length) span]
  | .callDynamic callee args => do
    let c ← expr start callee
    let code ← exprs (start + c.length) args
    return c ++ code ++ [.of (.callDynamic args.length) span]
  | .callMethodDynamic method args => do
    let code ← exprs start args
    return code ++ [.of (.callMethodDynamic method (args.length - 1)) span]
  | .field object field index => do
    let code ← expr start object
    match index with
    | some i => return code ++ [.of (.getField i) span]
    | none => return code ++ [.of (.getFieldDynamic field) span]
  | .structInit name values => do
    match ids.structs.lookup name with
    | some id =>
      let code ← exprs start values
      return code ++ [.of (.makeStruct id values.length) span]
    | none => unresolved "struct" name span
  | .lambda params _ body captures => do
    let outer ← enterLambda captures
    declareParams params
    let inner ← stmts 0 body
    let id ← exitLambda outer (← finish ids params inner false span)
    let code ← loads span captures
    return code ++ [.of (.makeClosure id captures.length) span]
  | .spawn function args => do
    match ids.functions.lookup function with
    | some id =>
      let code ← exprs start args
      return code ++ [.of (.spawn id args.length) span]
    | none => unresolved "function" function span
  | .await task => do
    let code ← expr start task
    return code ++ [.of .await span]
  | .box inner => do
    let code ← expr start inner
    return code ++ [.of .box span]
  | .unbox inner => do
    let code ← expr start inner
    return code ++ [.of (.unbox (ids.tagOf ty)) span]
  | .cast inner => do
    let code ← expr start inner
    match castTarget? ty with
    | some target => return code ++ [.of (.cast target) span]
    | none =>
      report (.conversion ty) span
      return code
  | .format parts => do
    let code ← exprs start parts
    return code ++ [.of (.format parts.length) span]

def exprs (start : Nat) : List TExpr → Emit (List Line)
  | [] => return []
  | e :: rest => do
    let code ← expr start e
    let rest ← exprs (start + code.length) rest
    return code ++ rest

/-- A statement; `rest` is what follows it in its block. -/
def stmt (start : Nat) (rest : List TStmt) : TStmt → Emit (List Line)
  | .declare name _ ty none span => do
    -- holds the place until the binding is assigned
    let code ← constant .null span
    let boxed := if ty = .any then [Line.of .box span] else []
    let slot ← declareBinding name span
    return code ++ boxed ++ [.of (.declare slot) span]
  | .declare name _ _ (some value) span => do
    let code ← expr start value
    let slot ← declareBinding name span
    return code ++ [.of (.declare slot) span]
  | .assign target value span => do
    let code ← expr start value
    let last ← store target span
    return code ++ last
  | .branch condition thenBlock elifs elseBlock span => do
    let before ← freed
    let c ← expr start condition
    let bodyStart := start + c.length + 1
    let body ← inScope span (stmts (bodyStart + 1) thenBlock)
    let afterThen ← freed
    let next := bodyStart + body.length + 1
    let (middle, afterMiddle) ← elifBranches next before span elifs
    setFreed before
    let last ← elseBranch (next + middle.length) span elseBlock
    let afterLast ← freed
    setFreed ((afterThen.merge afterMiddle).merge afterLast)
    let target := next + middle.length + last.length
    let lines := c ++ [.of (.jumpIfFalse next) condition.span] ++ body ++ [.leaveBranch span] ++
      middle ++ last
    return lines.map (Line.closeBranch target)
  | .loop condition body span => do
    let c ← expr start condition
    let bodyStart := start + c.length + 1
    let code ← inLoop start (inScope span (stmts (bodyStart + 1) body))
    let target := bodyStart + code.length + 1
    return c ++ [.of (.jumpIfFalse target) condition.span] ++ code.map (Line.closeLoop target) ++
      [.of (.jump start) span]
  | .block body span => inScope span (stmts (start + 1) body)
  | .ret none span => do
    let code ← constant .null span
    return code ++ [.of .ret span]
  | .ret (some value) span => do
    match ← movedSlot? value with
    | some slot => return [.of (.move slot) value.span, .of .ret span]
    | none =>
      let code ← expr start value
      return code ++ [.of .ret span]
  | .breakLoop span => do
    let code ← exitLoopScopes span
    return code ++ [.leaveLoop span]
  | .continueLoop span => do
    let code ← exitLoopScopes span
    let jump ← jumpToStart span
    return code ++ jump
  | .free name span => free name span
  | .collect span => collect rest span
  | .yieldNow span => return [.of .yieldNow span]
  | .eval value span => do
    let code ← expr start value
    return code ++ [.of .pop span]

def stmts (start : Nat) : List TStmt → Emit (List Line)
  | [] => return []
  | s :: rest => do
    let code ← stmt start rest s
    let more ← stmts (start + code.length) rest
    return code ++ more

/-- Further branches, each starting from what was freed before the `if`, with what is freed at
the end of any of them. -/
def elifBranches (start : Nat) (before : Freed) (span : Option Span) :
    List (TExpr × List TStmt) → Emit (List Line × Freed)
  | [] => return ([], [])
  | (condition, body) :: rest => do
    setFreed before
    let c ← expr start condition
    let bodyStart := start + c.length + 1
    let code ← inScope span (stmts (bodyStart + 1) body)
    let after ← freed
    let next := bodyStart + code.length + 1
    let (later, afterLater) ← elifBranches next before span rest
    return (c ++ [.of (.jumpIfFalse next) condition.span] ++ code ++ [.leaveBranch span] ++ later,
      after.merge afterLater)

def elseBranch (start : Nat) (span : Option Span) : Option (List TStmt) → Emit (List Line)
  | none => return []
  | some body => inScope span (stmts (start + 1) body)

end

end Emit

end ScopedScript
