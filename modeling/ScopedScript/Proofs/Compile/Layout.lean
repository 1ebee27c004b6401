import ScopedScript.Compile.Program
import ScopedScript.Proofs.Compile.Points

/-!
# Where code stands

What the code of a checked tree looks like in the finished function: which instructions stand
between which addresses, with the point of the function that each was written at. The compiler makes
such code; what the machine does with it can be said from the layout alone.
-/

namespace ScopedScript

/-- What is compiled into a function of its own. -/
structure Body where
  params : List TParam
  ret : Ty
  stmts : List TStmt
  captures : List String
  isAsync : Bool
  span : Option Span

def TFunction.toBody (f : TFunction) : Body := ⟨f.params, f.ret, f.body, [], f.isAsync, f.span⟩

/-! The bodies of the lambdas of a tree, at any depth. -/

mutual

def exprBodies : TExpr → List Body
  | .mk kind _ span => kindBodies span kind

def kindBodies (span : Option Span) : TKind → List Body
  | .int _ | .float _ | .bool _ | .string _ | .null | .binding _ | .function _ | .native _ => []
  | .binary _ left right => exprBodies left ++ exprBodies right
  | .unary _ operand => exprBodies operand
  | .logical _ left right => exprBodies left ++ exprBodies right
  | .call _ args => exprsBodies args
  | .callValue callee args => exprBodies callee ++ exprsBodies args
  | .callDynamic callee args => exprBodies callee ++ exprsBodies args
  | .callMethodDynamic _ args => exprsBodies args
  | .field object _ _ => exprBodies object
  | .structInit _ values => exprsBodies values
  | .lambda params ret body captures =>
    stmtsBodies body ++ [⟨params, ret, body, captures, false, span⟩]
  | .spawn _ args => exprsBodies args
  | .await task => exprBodies task
  | .box inner => exprBodies inner
  | .unbox inner => exprBodies inner
  | .cast inner => exprBodies inner
  | .format parts => exprsBodies parts

def exprsBodies : List TExpr → List Body
  | [] => []
  | e :: rest => exprBodies e ++ exprsBodies rest

def stmtBodies : TStmt → List Body
  | .declare _ _ _ none _ => []
  | .declare _ _ _ (some value) _ => exprBodies value
  | .assign _ value _ => exprBodies value
  | .branch condition thenBlock elifs elseBlock _ =>
    exprBodies condition ++ stmtsBodies thenBlock ++ elifsBodies elifs ++ elseBodies elseBlock
  | .loop condition body _ => exprBodies condition ++ stmtsBodies body
  | .block body _ => stmtsBodies body
  | .ret none _ => []
  | .ret (some value) _ => exprBodies value
  | .eval value _ => exprBodies value
  | .breakLoop _ | .continueLoop _ | .free _ _ | .collect _ | .yieldNow _ => []

def stmtsBodies : List TStmt → List Body
  | [] => []
  | s :: rest => stmtBodies s ++ stmtsBodies rest

def elifsBodies : List (TExpr × List TStmt) → List Body
  | [] => []
  | (condition, body) :: rest => exprBodies condition ++ stmtsBodies body ++ elifsBodies rest

def elseBodies : Option (List TStmt) → List Body
  | none => []
  | some body => stmtsBodies body

end

/-- All that is compiled of a program: its functions and methods, and the lambdas in them. -/
def TProgram.bodies (p : TProgram) : List Body :=
  p.functions.flatMap fun f => f.toBody :: stmtsBodies f.body

/-- The tables that code refers to by index; functions are numbered as the compiler does. -/
structure Tables where
  ids : Ids
  natives : Array String
  functions : Array (Option FunctionCode)

/-- The instruction by which something is called with so many arguments. -/
def Tables.Calls (t : Tables) (args : Nat) : Callee → Instr → Prop
  | .function name, i => ∃ id, t.ids.functions.lookup name = some id ∧ i = .call id args
  | .method struct method, i =>
    ∃ id, t.ids.functions.lookup (methodSymbol struct method) = some id ∧ i = .call id args
  | .native name, i => ∃ id : Nat, t.natives[id]? = some name ∧ i = .callNative id args

namespace FunctionCode

/-- The instruction at an address, with the place in the source that it comes from. -/
def Has (f : FunctionCode) (ip : Nat) (i : Instr) (span : Option Span) : Prop :=
  f.code[ip]? = some i ∧ f.spans[ip]? = some span

/-- As `Has`, for the last instruction before `stop`. -/
def Ends (f : FunctionCode) (ip : Nat) (i : Instr) (span : Option Span) (stop : Nat) : Prop :=
  f.Has ip i span ∧ stop = ip + 1

/-- Instructions one after the other. -/
def HasAll (f : FunctionCode) (span : Option Span) : Nat → List Instr → Nat → Prop
  | start, [], stop => stop = start
  | start, i :: rest, stop => f.Has start i span ∧ f.HasAll span (start + 1) rest stop

/-- A constant, or one that stands for it in the pool. -/
def HasConst (f : FunctionCode) (start : Nat) (c : Constant) (span : Option Span) (stop : Nat) :
    Prop :=
  ∃ (k : Nat) (d : Constant), f.constants[k]? = some d ∧ (d = c ∨ d.same c = true) ∧
    f.Ends start (.const k) span stop

/-- Code in a scope of its own. -/
def InScope (f : FunctionCode) (start : Nat) (span : Option Span) (body : Nat → Nat → Prop)
    (stop : Nat) : Prop :=
  ∃ last, f.Has start .enterScope span ∧ body (start + 1) last ∧ f.Ends last .exitScope span stop

end FunctionCode

/-! The code of names. -/

def LoadAt (f : FunctionCode) (P : Point) (start : Nat) (name : String) (span : Option Span)
    (stop : Nat) : Prop :=
  match P.resolve? name with
  | some (.slot b) => P.Usable b ∧ f.Ends start (.load b.slot) span stop
  | some (.capture i) => f.Ends start (.loadCapture i) span stop
  | none => False

def LoadsAt (f : FunctionCode) (P : Point) (span : Option Span) : Nat → List String → Nat → Prop
  | start, [], stop => stop = start
  | start, name :: rest, stop =>
    ∃ mid, LoadAt f P start name span mid ∧ LoadsAt f P span mid rest stop

/-- The declaration of a binding, after its value. -/
def DeclareAt (f : FunctionCode) (P : Point) (start : Nat) (name : String) (span : Option Span)
    (stop : Nat) : Prop :=
  P.slots < f.slotCount ∧ f.slotNames[P.slots]? = some name ∧
    f.Ends start (.declare P.slots) span stop

/-- The store of an assignment, after its value. -/
def StoreAt (f : FunctionCode) (P : Point) (start : Nat) (target : AssignTarget)
    (span : Option Span) (stop : Nat) : Prop :=
  match P.resolve? target.name with
  | some (.slot b) =>
    P.Usable b ∧ f.Ends start
      (if target.path.isEmpty then .store b.slot else .storeField b.slot target.path) span stop
  | _ => False

def FreeAt (f : FunctionCode) (P : Point) (start : Nat) (name : String) (span : Option Span)
    (stop : Nat) : Prop :=
  match P.resolve? name with
  | some (.slot b) => P.Usable b ∧ P.loops ≤ b.loopDepth ∧ f.Ends start (.free b.slot) span stop
  | _ => False

/-- The binding that `return` hands over instead of copying it. -/
def Point.moved? (P : Point) : TExpr → Option Binding
  | .mk (.binding name) _ _ =>
    match P.resolve? name with
    | some (.slot b) => some b
    | _ => none
  | _ => none

/-- Where `continue` and `break` lead, and how many scopes are open there. -/
structure Exits where
  start : Nat
  stop : Nat
  depth : Nat

/-- At the start of a body. -/
def Point.start (b : Body) : Point :=
  b.params.foldl (fun P p => P.declare p.name p.span) ⟨b.captures, [[]], [], 0, 0⟩

namespace Point

/-- After the declarations of parameters. -/
theorem extends_params (params : List TParam) {P : Point} (hP : P.Fine) :
    P.Extends (params.foldl (fun P p => P.declare p.name p.span) P) := by
  induction params generalizing P with
  | nil => exact .refl hP.nonempty
  | cons p rest ih =>
    have h := extends_declare hP p.name p.span
    exact h.trans hP.nonempty (ih (hP.extend h))

theorem slots_params (params : List TParam) (P : Point) :
    (params.foldl (fun P p => P.declare p.name p.span) P).slots = P.slots + params.length := by
  induction params generalizing P with
  | nil => rfl
  | cons p rest ih =>
    rw [List.foldl_cons, ih, List.length_cons]
    change P.slots + 1 + rest.length = P.slots + (rest.length + 1)
    omega

theorem scopes_params (params : List TParam) (P : Point) :
    (params.foldl (fun P p => P.declare p.name p.span) P).scopes.map (List.map Binding.slot) =
      (P.scopes.map (List.map Binding.slot)).modifyHead
        ((List.range' P.slots params.length).reverse ++ ·) := by
  induction params generalizing P with
  | nil =>
    rw [List.foldl_nil]
    cases hs : P.scopes <;> simp
  | cons p rest ih =>
    rw [List.foldl_cons, ih, List.length_cons, List.range'_succ]
    cases hs : P.scopes with
    | nil => simp [declare, hs]
    | cons scope outer => simp [declare, hs]

theorem fine_start (b : Body) : (start b).Fine := by
  have h₀ : Fine ⟨b.captures, [[]], [], 0, 0⟩ := ⟨by simp, nofun, nofun, by simp⟩
  exact h₀.extend (extends_params b.params h₀)

theorem slots_start (b : Body) : (start b).slots = b.params.length := by
  rw [start, slots_params, Nat.zero_add]

theorem scopes_start (b : Body) :
    (start b).scopes.map (List.map Binding.slot) = [(List.range b.params.length).reverse] := by
  rw [start, scopes_params, List.range_eq_range']
  simp

end Point

/-- Apart from its statements, `g` is the code of a body whose last point is `P`. Control that comes
to the end of the statements finds the code that gives `null` back. -/
structure Wraps (t : Tables) (g : FunctionCode) (b : Body) (P : Point) (stop : Nat) : Prop where
  arity : g.arity = b.params.length
  slots : g.slotCount = P.slots
  tags : g.paramTags = b.params.map fun p => t.ids.tagOf p.ty
  isAsync : g.isAsync = b.isAsync
  captures : g.captures = b.captures
  tail : ∃ last, g.HasConst stop .null b.span last ∧ g.Ends last .ret b.span g.code.size
  spans : g.spans.size = g.code.size

mutual

def ExprAt (t : Tables) (f : FunctionCode) (P : Point) (start : Nat) : TExpr → Nat → Prop
  | .mk kind ty span, stop => KindAt t f P start ty span kind stop

def KindAt (t : Tables) (f : FunctionCode) (P : Point) (start : Nat) (ty : Ty)
    (span : Option Span) : TKind → Nat → Prop
  | .int value, stop => f.HasConst start (.int value) span stop
  | .float value, stop => f.HasConst start (.float value) span stop
  | .bool value, stop => f.HasConst start (.bool value) span stop
  | .string value, stop => f.HasConst start (.string value) span stop
  | .null, stop => f.HasConst start .null span stop
  | .binding name, stop => LoadAt f P start name span stop
  | .function name, stop =>
    ∃ id, t.ids.functions.lookup name = some id ∧ f.Ends start (.makeClosure id 0) span stop
  | .native name, stop =>
    ∃ id : Nat, t.natives[id]? = some name ∧ f.Ends start (.loadNative id) span stop
  | .binary op left right, stop =>
    ∃ mid last, ExprAt t f P start left mid ∧ ExprAt t f P mid right last ∧
      f.Ends last (op.instr (operandKind left.ty right.ty)) span stop
  | .unary op operand, stop =>
    ∃ last, ExprAt t f P start operand last ∧ f.Ends last (op.instr operand.ty) span stop
  | .logical op left right, stop =>
    ∃ mid, ExprAt t f P start left mid ∧ f.Has mid .dup span ∧
      f.Has (mid + 1) (match op with | .and => .jumpIfFalse stop | .or => .jumpIfTrue stop) span ∧
      f.Has (mid + 2) .pop span ∧ ExprAt t f P (mid + 3) right stop
  | .call callee args, stop =>
    ∃ i last, t.Calls args.length callee i ∧ ExprsAt t f P start args last ∧ f.Ends last i span stop
  | .callValue callee args, stop =>
    ∃ mid last, ExprAt t f P start callee mid ∧ ExprsAt t f P mid args last ∧
      f.Ends last (.callValue args.length) span stop
  | .callDynamic callee args, stop =>
    ∃ mid last, ExprAt t f P start callee mid ∧ ExprsAt t f P mid args last ∧
      f.Ends last (.callDynamic args.length) span stop
  | .callMethodDynamic method args, stop =>
    ∃ last, ExprsAt t f P start args last ∧
      f.Ends last (.callMethodDynamic method (args.length - 1)) span stop
  | .field object field index, stop =>
    ∃ last, ExprAt t f P start object last ∧
      f.Ends last
      (match index with | some i => .getField i | none => .getFieldDynamic field) span stop
  | .structInit name values, stop =>
    ∃ id last, t.ids.structs.lookup name = some id ∧ ExprsAt t f P start values last ∧
      f.Ends last (.makeStruct id values.length) span stop
  | .lambda params ret body captures, stop =>
    ∃ id g last inner, t.functions[id]? = some (some g) ∧
      StmtsAt t g none (.start ⟨params, ret, body, captures, false, span⟩) 0 body inner ∧
      Wraps t g ⟨params, ret, body, captures, false, span⟩
        ((Point.start ⟨params, ret, body, captures, false, span⟩).stmts body) inner ∧
      LoadsAt f P span start captures last ∧ f.Ends last (.makeClosure id captures.length) span stop
  | .spawn function args, stop =>
    ∃ id last, t.ids.functions.lookup function = some id ∧ ExprsAt t f P start args last ∧
      f.Ends last (.spawn id args.length) span stop
  | .await task, stop => ∃ last, ExprAt t f P start task last ∧ f.Ends last .await span stop
  | .box inner, stop => ∃ last, ExprAt t f P start inner last ∧ f.Ends last .box span stop
  | .unbox inner, stop =>
    ∃ last, ExprAt t f P start inner last ∧ f.Ends last (.unbox (t.ids.tagOf ty)) span stop
  | .cast inner, stop =>
    ∃ target last, castTarget? ty = some target ∧ ExprAt t f P start inner last ∧
      f.Ends last (.cast target) span stop
  | .format parts, stop =>
    ∃ last, ExprsAt t f P start parts last ∧ f.Ends last (.format parts.length) span stop

def ExprsAt (t : Tables) (f : FunctionCode) (P : Point) (start : Nat) : List TExpr → Nat → Prop
  | [], stop => stop = start
  | e :: rest, stop => ∃ mid, ExprAt t f P start e mid ∧ ExprsAt t f P mid rest stop

/-- A statement that `rest` follows in its block, at the point `P`. Nothing is said of a `break` or
`continue` outside of loops. -/
def StmtAt (t : Tables) (f : FunctionCode) (x : Option Exits) (P : Point) (start : Nat)
    (rest : List TStmt) : TStmt → Nat → Prop
  | .declare name _ ty none span, stop =>
    ∃ mid last, f.HasConst start .null span mid ∧
      (if ty = .any then f.Ends mid .box span last else last = mid) ∧
      DeclareAt f P last name span stop
  | .declare name _ _ (some value) span, stop =>
    ∃ last, ExprAt t f P start value last ∧ DeclareAt f P last name span stop
  | .assign target value span, stop =>
    ∃ last, ExprAt t f P start value last ∧ StoreAt f P last target span stop
  | .branch condition thenBlock elifs elseBlock span, stop =>
    ∃ mid last next other, ExprAt t f P start condition mid ∧
      f.Has mid (.jumpIfFalse next) condition.span ∧
      f.InScope (mid + 1) span (fun a b => StmtsAt t f x P.opened a thenBlock b) last ∧
      f.Ends last (.jump stop) span next ∧
      ElifsAt t f x P.freed span stop (P.opened.stmts thenBlock).closed next elifs other ∧
      ElseAt t f x
        ((Point.elifBranches P.freed (P.opened.stmts thenBlock).closed elifs).1.withFreed P.freed)
        other span elseBlock stop
  | .loop condition body span, stop =>
    ∃ mid last, ExprAt t f P start condition mid ∧
      f.Has mid (.jumpIfFalse stop) condition.span ∧
      f.InScope (mid + 1) span
        (fun a b => StmtsAt t f (some ⟨start, stop, P.scopes.length⟩) P.inLoop.opened a body b)
        last ∧
      f.Ends last (.jump start) span stop
  | .block body span, stop =>
    f.InScope start span (fun a b => StmtsAt t f x P.opened a body b) stop
  | .ret none span, stop => ∃ last, f.HasConst start .null span last ∧ f.Ends last .ret span stop
  | .ret (some value) span, stop =>
    match P.moved? value with
    | some b =>
      P.Usable b ∧ f.Has start (.move b.slot) value.span ∧ f.Ends (start + 1) .ret span stop
    | none => ∃ last, ExprAt t f P start value last ∧ f.Ends last .ret span stop
  | .breakLoop span, stop =>
    match x with
    | some x =>
      ∃ last, f.HasAll span start (List.replicate (P.scopes.length - x.depth) .exitScope) last ∧
        f.Ends last (.jump x.stop) span stop
    | none => stop = start + 1
  | .continueLoop span, stop =>
    match x with
    | some x =>
      ∃ last, f.HasAll span start (List.replicate (P.scopes.length - x.depth) .exitScope) last ∧
        f.Ends last (.jump x.start) span stop
    | none => stop = start
  | .free name span, stop => FreeAt f P start name span stop
  | .collect span, stop => f.HasAll span start ((P.dead rest).map fun b => .free b.slot) stop
  | .yieldNow span, stop => f.Ends start .yieldNow span stop
  | .eval value span, stop =>
    ∃ last, ExprAt t f P start value last ∧ f.Ends last .pop span stop

def StmtsAt (t : Tables) (f : FunctionCode) (x : Option Exits) (P : Point) (start : Nat) :
    List TStmt → Nat → Prop
  | [], stop => stop = start
  | s :: rest, stop =>
    ∃ mid, StmtAt t f x P start rest s mid ∧ StmtsAt t f x (P.stmt rest s) mid rest stop

/-- Further branches of an `if` whose code ends at `target`. -/
def ElifsAt (t : Tables) (f : FunctionCode) (x : Option Exits) (before : Freed)
    (span : Option Span) (target : Nat) (P : Point) (start : Nat) :
    List (TExpr × List TStmt) → Nat → Prop
  | [], stop => stop = start
  | (condition, body) :: rest, stop =>
    ∃ mid last next, ExprAt t f (P.withFreed before) start condition mid ∧
      f.Has mid (.jumpIfFalse next) condition.span ∧
      f.InScope (mid + 1) span
        (fun a b => StmtsAt t f x (P.withFreed before).opened a body b) last ∧
      f.Ends last (.jump target) span next ∧
      ElifsAt t f x before span target ((P.withFreed before).opened.stmts body).closed
      next rest stop

def ElseAt (t : Tables) (f : FunctionCode) (x : Option Exits) (P : Point) (start : Nat)
    (span : Option Span) : Option (List TStmt) → Nat → Prop
  | none, stop => stop = start
  | some body, stop =>
    f.InScope start span (fun a b => StmtsAt t f x P.opened a body b) stop

end

/-- The code of a body, as a function of its own. -/
def BodyAt (t : Tables) (g : FunctionCode) (b : Body) : Prop :=
  ∃ stop, StmtsAt t g none (.start b) 0 b.stmts stop ∧
    Wraps t g b ((Point.start b).stmts b.stmts) stop

end ScopedScript
