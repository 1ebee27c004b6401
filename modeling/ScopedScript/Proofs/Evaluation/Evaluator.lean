import ScopedScript.Proofs.Evaluation.Outline
import ScopedScript.Proofs.Machine.Reactions

/-!
# Evaluation of checked programs

What a checked program means, by recursion over its tree and without any code: names stand for
values in scope, operands are evaluated from left to right, and a call evaluates the body of a
procedure. Programs need not end, so an evaluation is given fuel, of which each call and each turn
of a loop takes some.

Values, operators and built-ins are those of the machine, which is also how deep calls may nest.
-/

namespace ScopedScript

/-- Why an evaluation has no value. -/
inductive Stop
  | trap (t : Trap)
  | outOfFuel
  /-- A procedure was called with another number of arguments than it has parameters. -/
  | misfit
  /-- The tree is not that of a compiled program, or has to do with tasks. -/
  | stuck

/-- An evaluation writes text, and has a value unless something stops it. -/
abbrev Eval := EStateM Stop String

/-- The values in scope by their names: innermost scope first, in each the newest one first. -/
abbrev Locals := List (List (String × Value))

namespace Locals

def find? (env : Locals) (name : String) : Option Value :=
  env.findSome? fun scope => (scope.find? fun b => b.1 == name).map Prod.snd

/-- With a new binding in the innermost scope. -/
def declare (env : Locals) (name : String) (v : Value) : Locals :=
  env.modifyHead ((name, v) :: ·)

/-- With another value for the binding that a name stands for. -/
def assign (name : String) (v : Value) : Locals → Locals
  | [] => []
  | scope :: outer =>
    if scope.any fun b => b.1 == name then
      scope.replaceF (fun b => if b.1 == name then some (name, v) else none) :: outer
    else scope :: assign name v outer

end Locals

/-- A call that is being evaluated. -/
structure Activation where
  name : String
  captures : List String
  captured : List Value
  /-- How many calls are being evaluated, this one included. -/
  depth : Nat

/-- How a statement ends. -/
inductive Completion
  | normal (env : Locals)
  | broken (env : Locals)
  | continued (env : Locals)
  | returned (v : Value)

/-- After a block, without the scope of it. -/
def Completion.closed : Completion → Completion
  | normal env => normal env.tail
  | broken env => broken env.tail
  | continued env => continued env.tail
  | returned v => returned v

/-- A program that is evaluated, with the machine that gives its values their operations. -/
structure Evaluator where
  linked : Linked
  program : TProgram

namespace Evaluator

/-- Evaluates a call of a procedure with these arguments and captured values, at this depth. -/
abbrev Caller := Procedure → List Value → List Value → Nat → Eval Value

variable (w : Evaluator)

def ids : Ids := .ofProgram w.program

def module : Module := w.linked.module

/-- A fault at a place of the tree. -/
def fault (a : Activation) (span : Option Span) (cause : FaultCause) : Eval α :=
  throw (.trap (.fault ⟨cause, span, some a.name⟩))

/-- What there has to be. -/
def known : Option α → Eval α
  | some x => return x
  | none => throw .stuck

/-! ## Calls -/

/-- Checks the arguments of a call that is only known when it happens. -/
def dynamicArgs (q : Procedure) (args : List Value) : Except Mistype (List Value) :=
  if q.body.isAsync then .error (.asyncCall q.name)
  else if args.length ≠ q.body.params.length then
    .error (.argumentCount q.name q.body.params.length args.length)
  else
    Exec.unboxArgs w.module q.name 1 args (q.body.params.map fun param => w.ids.tagOf param.ty)

/-- A call of a procedure that is only known when it happens. -/
def dynamic (id : Nat) (args captured : List Value) : Reaction :=
  match w.program.procedures[id]? with
  | none => .fails (.malformed (.noFunction id))
  | some q =>
    match w.dynamicArgs q args with
    | .ok args => .enter id args captured true
    | .error cause => .fails (.mistype cause)

/-- A call of a value of type `any`. -/
def calleeDynamic (callee : Value) (args : List Value) : String × Reaction :=
  match callee.unboxed with
  | .function id => ("", w.dynamic id args [])
  | .closure id captured => ("", w.dynamic id args captured)
  | _ => Reaction.ofCalleeDynamic w.linked callee args

/-- A method of a value of type `any`. -/
def methodDynamic (receiver : Value) (method : String) (args : List Value) : Reaction :=
  match receiver.unboxed with
  | .struct type fields =>
    match w.module.structs[type]? with
    | none => .fails (.malformed (.noStruct type))
    | some layout =>
      match layout.method? method with
      | none => .fails (.mistype (.structNoMethod layout.name method))
      | some id => w.dynamic id (.struct type fields :: args) []
  | other => .fails (.mistype (.noMethod (other.typeName w.module) method))

/-- Calls a procedure by its number. The result of a call is boxed for a caller that knows nothing
of its type. -/
def enter (call : Caller) (a : Activation) (span : Option Span) (id : Nat)
    (args captured : List Value) (box : Bool) : Eval Value := do
  if w.linked.config.maxCallDepth ≤ a.depth then
    fault a span (.callDepth w.linked.config.maxCallDepth)
  match w.program.procedures[id]? with
  | none => fault a span (.malformed (.noFunction id))
  | some q =>
    if args.length ≠ q.body.params.length then throw .misfit
    let v ← call q args captured (a.depth + 1)
    return if box then v.boxed else v

/-- Does what the operands come to at a place of the tree. -/
def perform (call : Caller) (a : Activation) (span : Option Span) : Reaction → Eval Value
  | .value v => return v
  | .enter id args captured box => w.enter call a span id args captured box
  | .fails cause => fault a span cause
  | .lost type => throw (.trap (.lost type))

/-- As `perform`, after some text has been written. -/
def answer (call : Caller) (a : Activation) (span : Option Span) (r : String × Reaction) :
    Eval Value := do
  modify (· ++ r.1)
  w.perform call a span r.2

/-! ## Operators and names -/

def binary (op : BinaryOp) (kind : OperandKind) (x y : Value) : Reaction :=
  match op with
  | .arith op => .ofExcept (Operator.arith w.module op kind x y)
  | .order op => .ofExcept ((Operator.order w.module op kind x y).map .bool)
  | .eq => .value (.bool (x.equals y))
  | .ne => .value (.bool !(x.equals y))

def unary (op : UnaryOp) (operand : Ty) (x : Value) : Reaction :=
  match op with
  | .neg => .ofExcept (Operator.negate w.module (operandKind operand operand) x)
  | .not =>
    match x.unboxed with
    | .bool b => .value (.bool !b)
    | _ => .fails (.malformed .condition)

/-- Whether a condition holds. -/
def holds (a : Activation) (span : Option Span) (v : Value) : Eval Bool :=
  match v.unboxed with
  | .bool b => return b
  | _ => fault a span (.malformed .condition)

/-- The value of a name: that of a binding in scope, or else one that was captured. -/
def read (a : Activation) (env : Locals) (span : Option Span) (name : String) : Eval Value :=
  match env.find? name with
  | some v => return v
  | none => do
    let i ← known (a.captures.findIdx? fun c => c == name)
    match a.captured[i]? with
    | some v => return v
    | none => fault a span (.malformed (.captureRange i))

def reads (a : Activation) (env : Locals) (span : Option Span) : List String → Eval (List Value)
  | [] => return []
  | name :: rest => do
    let v ← read a env span name
    let vs ← reads a env span rest
    return v :: vs

/-- A procedure with the values that it has captured. -/
def closure (id : Nat) : List Value → Value
  | [] => .function id
  | captured => .closure id captured

/-- The number of a built-in. -/
def native (name : String) : Eval Nat := known (w.module.natives.findIdx? fun n => n == name)

/-! ## Expressions -/

section

variable (call : Caller) (a : Activation)

mutual

/-- The value of an expression, the first lambda in which has the number `first`. -/
def expr (env : Locals) (first : Nat) : TExpr → Eval Value
  | .mk kind ty span => kindValue env first ty span kind

def kindValue (env : Locals) (first : Nat) (ty : Ty) (span : Option Span) : TKind → Eval Value
  | .int n => return .int n
  | .float x => return .float x
  | .bool b => return .bool b
  | .string s => return .string s
  | .null => return .null
  | .binding name => read a env span name
  | .function name => return .function (← known (w.ids.functions.lookup name))
  | .native name => return .native (← w.native name)
  | .binary op left right => do
    let x ← expr env first left
    let y ← expr env (first + (exprOutline w.ids left).total) right
    w.perform call a span (w.binary op (operandKind left.ty right.ty) x y)
  | .unary op operand => do
    let x ← expr env first operand
    w.perform call a span (w.unary op operand.ty x)
  | .logical op left right => do
    let x ← expr env first left
    -- the right operand counts only where the left one does not decide
    if (← holds a span x) = (op = .or) then return x
    else expr env (first + (exprOutline w.ids left).total) right
  | .call callee args => do
    match callee with
    | .function name =>
      let id ← known (w.ids.functions.lookup name)
      let vs ← exprs env first args
      w.enter call a span id vs [] false
    | .method struct method =>
      let id ← known (w.ids.functions.lookup (methodSymbol struct method))
      let vs ← exprs env first args
      w.enter call a span id vs [] false
    | .native name =>
      let id ← w.native name
      let vs ← exprs env first args
      let reply := Reaction.ofBuiltin w.linked id vs
      w.answer call a span (reply.1, .ofExcept reply.2)
  | .callValue callee args => do
    let f ← expr env first callee
    let vs ← exprs env (first + (exprOutline w.ids callee).total) args
    w.answer call a span (Reaction.ofCallee w.linked f vs)
  | .callDynamic callee args => do
    let f ← expr env first callee
    let vs ← exprs env (first + (exprOutline w.ids callee).total) args
    w.answer call a span (w.calleeDynamic f vs)
  | .callMethodDynamic method args => do
    match ← exprs env first args with
    | [] => throw .stuck
    | receiver :: vs => w.perform call a span (w.methodDynamic receiver method vs)
  | .field object field index => do
    let v ← expr env first object
    match index with
    | some i => w.perform call a span (.ofField w.module v i)
    | none => w.perform call a span (.ofFieldDynamic w.module v field)
  | .structInit name values => do
    let id ← known (w.ids.structs.lookup name)
    return .struct id (← exprs env first values)
  | .lambda _ _ body captures =>
    return closure (first + (stmtsOutline w.ids body).total) (← reads a env span captures)
  | .spawn _ _ | .await _ => throw .stuck
  | .box inner => return (← expr env first inner).boxed
  | .unbox inner => do
    let v ← expr env first inner
    w.perform call a span (.ofMistype (Exec.unbox w.module (w.ids.tagOf ty) v))
  | .cast inner => do
    let target ← known (castTarget? ty)
    let v ← expr env first inner
    w.perform call a span (.ofExcept (Operator.convert w.module target v))
  | .format parts =>
    return .string (String.join ((← exprs env first parts).map (Value.text w.module)))

def exprs (env : Locals) (first : Nat) : List TExpr → Eval (List Value)
  | [] => return []
  | e :: rest => do
    let v ← expr env first e
    let vs ← exprs env (first + (exprOutline w.ids e).total) rest
    return v :: vs

end

/-- A condition, which faults where it stands. -/
def test (env : Locals) (first : Nat) (condition : TExpr) : Eval Bool := do
  holds a condition.span (← w.expr call a env first condition)

/-- The new value of a binding, or of a part of it, in its place. -/
def store (env : Locals) (target : AssignTarget) (span : Option Span) (v : Value) :
    Eval Locals := do
  let old ← known (env.find? target.name)
  match Value.setPath? v target.path old with
  | some whole => return env.assign target.name whole
  | none => fault a span (.malformed (.slot .badPath))

/-! ## Statements -/

/-- Evaluates statements in a scope of their own. -/
def block (body : Locals → Eval Completion) (env : Locals) : Eval Completion :=
  return (← body ([] :: env)).closed

/-- Evaluates the body of a loop as long as its condition holds. -/
def iterate (test : Locals → Eval Bool) (body : Locals → Eval Completion) :
    (fuel : Nat) → Locals → Eval Completion
  | 0, _ => throw .outOfFuel
  | fuel + 1, env => do
    if ← test env then
      match ← body env with
      | .normal env | .continued env => iterate test body fuel env
      | .broken env => return .normal env
      | .returned v => return .returned v
    else return .normal env

variable (fuel : Nat)

mutual

def stmt (env : Locals) (first : Nat) : TStmt → Eval Completion
  | .declare name _ ty none _ =>
    return .normal (env.declare name (if ty = .any then Value.null.boxed else .null))
  | .declare name _ _ (some value) _ => do
    let v ← w.expr call a env first value
    return .normal (env.declare name v)
  | .assign target value span => do
    let v ← w.expr call a env first value
    return .normal (← store a env target span v)
  | .branch condition thenBlock elifs elseBlock _ => do
    let next := first + (exprOutline w.ids condition).total
    if ← w.test call a env first condition then
      block (fun env => stmts env next thenBlock) env
    else
      elifBranches env (fun first => elseBranch env first elseBlock)
        (next + (stmtsOutline w.ids thenBlock).total) elifs
  | .loop condition body _ =>
    iterate (fun env => w.test call a env first condition)
      (block fun env => stmts env (first + (exprOutline w.ids condition).total) body) fuel env
  | .block body _ => block (fun env => stmts env first body) env
  | .ret none _ => return .returned .null
  | .ret (some value) _ => return .returned (← w.expr call a env first value)
  | .breakLoop _ => return .broken env
  | .continueLoop _ => return .continued env
  | .free _ _ | .collect _ => return .normal env
  | .yieldNow _ => throw .stuck
  | .eval value _ => do
    let _ ← w.expr call a env first value
    return .normal env

def stmts (env : Locals) (first : Nat) : List TStmt → Eval Completion
  | [] => return .normal env
  | s :: rest => do
    match ← stmt env first s with
    | .normal env => stmts env (first + (stmtOutline w.ids s).total) rest
    | completion => return completion

/-- The first further branch whose condition holds, or else the last one. -/
def elifBranches (env : Locals) (last : Nat → Eval Completion) (first : Nat) :
    List (TExpr × List TStmt) → Eval Completion
  | [] => last first
  | (condition, body) :: rest => do
    let next := first + (exprOutline w.ids condition).total
    if ← w.test call a env first condition then block (fun env => stmts env next body) env
    else elifBranches env last (next + (stmtsOutline w.ids body).total) rest

def elseBranch (env : Locals) (first : Nat) : Option (List TStmt) → Eval Completion
  | none => return .normal env
  | some body => block (fun env => stmts env first body) env

end

end

/-! ## Programs -/

/-- What a procedure starts with: its parameters, the last one first. -/
def parameters (q : Procedure) (args : List Value) : Locals :=
  [((q.body.params.map TParam.name).zip args).reverse]

/-- A call. The end of a body gives `null`. -/
def call : (fuel : Nat) → Caller
  | 0, _, _, _, _ => throw .outOfFuel
  | fuel + 1, q, args, captured, depth => do
    let a : Activation := ⟨q.name, q.body.captures, captured, depth⟩
    match ← w.stmts (call fuel) a (fuel + 1) (parameters q args) q.first q.body.stmts with
    | .normal _ => return .null
    | .returned v => return v
    | _ => throw .stuck

/-- A run of the procedure of this name, which takes no arguments. -/
def run (fuel : Nat) (name : String) : Eval Value := do
  let q ← known (w.program.procedures.find? fun q => q.name == name)
  w.call fuel q [] [] 1

/-- How a run ends and what has been written by then; `none` when it does not end with this much
fuel, or when the program is not one that evaluation is for. -/
def outcome? (fuel : Nat) (name : String) (written : String) : Option (RunEnd × String) :=
  match w.run fuel name written with
  | .ok v written => some (.outcome (.ok v), written)
  | .error (.trap (.fault f)) written => some (.outcome (.error f), written)
  | .error (.trap (.lost type)) written => some (.lost type, written)
  | .error _ _ => none

/-- With this much fuel, the run does not end. -/
def Exhausts (fuel : Nat) (name : String) (written : String) : Prop :=
  ∃ written', w.run fuel name written = .error .outOfFuel written'

end Evaluator

end ScopedScript
