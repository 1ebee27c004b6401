import ScopedScript.Typing.Program

/-!
# Programs without early releases

`free` and `collect` release bindings before their scopes end. The bare form of a tree is the tree
without these two statements, in all of its blocks and lambdas.
-/

namespace ScopedScript

/-- The statements that release bindings early. -/
def Stmt.releases : Stmt → Bool
  | .free _ _ | .collect _ => true
  | _ => false

mutual

def Expr.bare : Expr → Expr
  | .int value span => .int value span
  | .float value span => .float value span
  | .bool value span => .bool value span
  | .string value span => .string value span
  | .null span => .null span
  | .name name span => .name name span
  | .binary op left right span => .binary op left.bare right.bare span
  | .unary op operand span => .unary op operand.bare span
  | .logical op left right span => .logical op left.bare right.bare span
  | .call callee args span => .call callee.bare (exprsBare args) span
  | .methodCall object method args span => .methodCall object.bare method (exprsBare args) span
  | .field object field span => .field object.bare field span
  | .structInit name fields span => .structInit name (fieldsBare fields) span
  | .lambda params ret body span => .lambda params ret (stmtsBare body) span
  | .spawn call span => .spawn call.bare span
  | .await task span => .await task.bare span
  | .cast value type span => .cast value.bare type span
  | .format parts span => .format (exprsBare parts) span

def exprsBare : List Expr → List Expr
  | [] => []
  | e :: rest => e.bare :: exprsBare rest

def fieldsBare : List (String × Expr) → List (String × Expr)
  | [] => []
  | (field, value) :: rest => (field, value.bare) :: fieldsBare rest

def Stmt.bare : Stmt → Stmt
  | .declare name mutable type none span => .declare name mutable type none span
  | .declare name mutable type (some value) span =>
    .declare name mutable type (some value.bare) span
  | .assign target value span => .assign target.bare value.bare span
  | .branch condition thenBlock elifs elseBlock span =>
    .branch condition.bare (stmtsBare thenBlock) (elifsBare elifs) (elseBare elseBlock) span
  | .loop condition body span => .loop condition.bare (stmtsBare body) span
  | .block body span => .block (stmtsBare body) span
  | .ret none span => .ret none span
  | .ret (some value) span => .ret (some value.bare) span
  | .breakLoop span => .breakLoop span
  | .continueLoop span => .continueLoop span
  | .free name span => .free name span
  | .collect span => .collect span
  | .yieldNow span => .yieldNow span
  | .eval expr span => .eval expr.bare span

def stmtsBare : List Stmt → List Stmt
  | [] => []
  | s :: rest => if s.releases then stmtsBare rest else s.bare :: stmtsBare rest

def elifsBare : List (Expr × List Stmt) → List (Expr × List Stmt)
  | [] => []
  | (condition, body) :: rest => (condition.bare, stmtsBare body) :: elifsBare rest

def elseBare : Option (List Stmt) → Option (List Stmt)
  | none => none
  | some body => some (stmtsBare body)

end

namespace Expr

@[simp]
theorem span_bare (e : Expr) : e.bare.span = e.span := by
  cases e <;> rfl

theorem fieldChain_bare : (e : Expr) →
    Check.fieldChain e.bare = ((Check.fieldChain e).1.bare, (Check.fieldChain e).2)
  | .field object f _ => by
    rw [bare, Check.fieldChain, fieldChain_bare object]
    rfl
  | .int _ _ | .float _ _ | .bool _ _ | .string _ _ | .null _ | .name _ _ | .binary _ _ _ _
  | .unary _ _ _ | .logical _ _ _ _ | .call _ _ _ | .methodCall _ _ _ _ | .structInit _ _ _
  | .lambda _ _ _ _ | .spawn _ _ | .await _ _ | .cast _ _ _ | .format _ _ => rfl

theorem comparedWithNull?_bare (l r : Expr) :
    Check.comparedWithNull? l.bare r.bare = Check.comparedWithNull? l r := by
  cases l <;> cases r <;> rfl

/-- Tests for null have no statements in them. -/
theorem nullTest?_bare (e : Expr) : Check.nullTest? e.bare = Check.nullTest? e := by
  cases e with
  | binary op l r span => rw [bare, Check.nullTest?, Check.nullTest?, comparedWithNull?_bare]
  | _ => rfl

theorem namedCallee?_bare (e : Expr) : Check.namedCallee? e.bare = Check.namedCallee? e := by
  cases e <;> rfl

end Expr

@[simp]
theorem length_exprsBare : (es : List Expr) → (exprsBare es).length = es.length
  | [] => rfl
  | _ :: rest => congrArg (· + 1) (length_exprsBare rest)

theorem isEmpty_elifsBare (elifs : List (Expr × List Stmt)) :
    (elifsBare elifs).isEmpty = elifs.isEmpty := by
  cases elifs <;> rfl

theorem isSome_elseBare (elseBlock : Option (List Stmt)) :
    (elseBare elseBlock).isSome = elseBlock.isSome := by
  cases elseBlock <;> rfl

def FunctionDecl.bare (d : FunctionDecl) : FunctionDecl := { d with body := stmtsBare d.body }

def StructDecl.bare (d : StructDecl) : StructDecl :=
  { d with methods := d.methods.map FunctionDecl.bare }

def Item.bare : Item → Item
  | .struct d => .struct d.bare
  | .function d => .function d.bare

namespace Program

/-- The program with every `free` and `collect` taken out. -/
def bare (p : Program) : Program := { p with items := p.items.map Item.bare }

theorem structs_bare (p : Program) : p.bare.structs = p.structs.map StructDecl.bare := by
  unfold structs bare
  induction p.items with
  | nil => rfl
  | cons item rest ih => cases item <;> simpa [Item.bare] using ih

theorem functions_bare (p : Program) : p.bare.functions = p.functions.map FunctionDecl.bare := by
  unfold functions bare
  induction p.items with
  | nil => rfl
  | cons item rest ih => cases item <;> simpa [Item.bare] using ih

end Program

/-! ## Checked trees -/

def TStmt.isRelease : TStmt → Bool
  | .free _ _ | .collect _ => true
  | _ => false

mutual

def TExpr.bare : TExpr → TExpr
  | .mk kind ty span => .mk kind.bare ty span

def TKind.bare : TKind → TKind
  | .int value => .int value
  | .float value => .float value
  | .bool value => .bool value
  | .string value => .string value
  | .null => .null
  | .binding name => .binding name
  | .function name => .function name
  | .native name => .native name
  | .binary op left right => .binary op left.bare right.bare
  | .unary op operand => .unary op operand.bare
  | .logical op left right => .logical op left.bare right.bare
  | .call callee args => .call callee (texprsBare args)
  | .callValue callee args => .callValue callee.bare (texprsBare args)
  | .callDynamic callee args => .callDynamic callee.bare (texprsBare args)
  | .callMethodDynamic method args => .callMethodDynamic method (texprsBare args)
  | .field object field index => .field object.bare field index
  | .structInit name values => .structInit name (texprsBare values)
  | .lambda params ret body captures => .lambda params ret (tstmtsBare body) captures
  | .spawn function args => .spawn function (texprsBare args)
  | .await task => .await task.bare
  | .box inner => .box inner.bare
  | .unbox inner => .unbox inner.bare
  | .cast inner => .cast inner.bare
  | .format parts => .format (texprsBare parts)

def texprsBare : List TExpr → List TExpr
  | [] => []
  | e :: rest => e.bare :: texprsBare rest

def TStmt.bare : TStmt → TStmt
  | .declare name mutable ty none span => .declare name mutable ty none span
  | .declare name mutable ty (some value) span => .declare name mutable ty (some value.bare) span
  | .assign target value span => .assign target value.bare span
  | .branch condition thenBlock elifs elseBlock span =>
    .branch condition.bare (tstmtsBare thenBlock) (telifsBare elifs) (telseBare elseBlock) span
  | .loop condition body span => .loop condition.bare (tstmtsBare body) span
  | .block body span => .block (tstmtsBare body) span
  | .ret none span => .ret none span
  | .ret (some value) span => .ret (some value.bare) span
  | .breakLoop span => .breakLoop span
  | .continueLoop span => .continueLoop span
  | .free name span => .free name span
  | .collect span => .collect span
  | .yieldNow span => .yieldNow span
  | .eval expr span => .eval expr.bare span

def tstmtsBare : List TStmt → List TStmt
  | [] => []
  | s :: rest => if s.isRelease then tstmtsBare rest else s.bare :: tstmtsBare rest

def telifsBare : List (TExpr × List TStmt) → List (TExpr × List TStmt)
  | [] => []
  | (condition, body) :: rest => (condition.bare, tstmtsBare body) :: telifsBare rest

def telseBare : Option (List TStmt) → Option (List TStmt)
  | none => none
  | some body => some (tstmtsBare body)

end

namespace TExpr

@[simp]
theorem ty_bare (e : TExpr) : e.bare.ty = e.ty := by
  cases e
  rfl

@[simp]
theorem span_bare (e : TExpr) : e.bare.span = e.span := by
  cases e
  rfl

@[simp]
theorem bare_poison (span : Option Span) : (poison span).bare = poison span := rfl

end TExpr

theorem texprsBare_eq_map (es : List TExpr) : texprsBare es = es.map TExpr.bare := by
  induction es with
  | nil => rfl
  | cons e rest ih => rw [texprsBare, List.map_cons, ih]

@[simp]
theorem length_texprsBare (es : List TExpr) : (texprsBare es).length = es.length := by
  rw [texprsBare_eq_map, List.length_map]

def TFunction.bare (f : TFunction) : TFunction := { f with body := tstmtsBare f.body }

def TProgram.bare (p : TProgram) : TProgram :=
  { p with functions := p.functions.map TFunction.bare }

end ScopedScript
