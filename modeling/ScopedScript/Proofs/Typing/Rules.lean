import ScopedScript.Proofs.Typing.Facts
import ScopedScript.Typing.Check

/-!
# Typing rules

What it means for a checked tree to be well typed, apart from how it is found out. A context says
what is known of the bindings in scope. An expression has the type that it carries; a statement
leads from a context to that of the statements after it.

Operations that look into values of type `any` are kept apart: `leaves t` says that a value may
leave `any` for the type `t`, and `leaves .any` that it may be looked into without leaving `any`.
-/

namespace ScopedScript

/-- A value of the first type is one of the second as it stands. -/
def Ty.Flows (a b : Ty) : Prop := a = b ∨ b = .nullable a ∨ a = .null ∧ b.isNullable = true

theorem Ty.Flows.refl (t : Ty) : t.Flows t := .inl rfl

/-! ## Contexts -/

/-- What is known of a binding. -/
structure Known where
  ty : Ty
  mutable : Bool
  /-- It has been found not to be null. -/
  nonNull : Bool

/-- The type that the binding has when it is read. -/
def Known.read (k : Known) : Ty := if k.nonNull then k.ty.nonNull else k.ty

/-- A function at some place in it. -/
structure Context where
  /-- The bindings in scope, innermost scope first and in each the newest binding first. -/
  scopes : List (List (String × Known))
  /-- The types of the names that a lambda may capture. -/
  captured : String → Option Ty
  ret : Ty

/-- The first binding of this name is known not to be null. -/
def narrowScope (name : String) : List (String × Known) → List (String × Known)
  | [] => []
  | (n, k) :: rest =>
    if n = name then (n, { k with nonNull := true }) :: rest else (n, k) :: narrowScope name rest

def narrowScopes (name : String) : List (List (String × Known)) → List (List (String × Known))
  | [] => []
  | scope :: outer =>
    if (scope.lookup name).isSome then narrowScope name scope :: outer
    else scope :: narrowScopes name outer

namespace Context

def find? (Γ : Context) (name : String) : Option Known :=
  Γ.scopes.findSome? fun scope => scope.lookup name

/-- The type of a name that means a binding of this function or of one around it. -/
def type? (Γ : Context) (name : String) : Option Ty :=
  match Γ.find? name with
  | some k => some k.read
  | none => Γ.captured name

def declare (Γ : Context) (name : String) (k : Known) : Context :=
  { Γ with scopes := Γ.scopes.modifyHead fun scope => (name, k) :: scope }

def opened (Γ : Context) : Context := { Γ with scopes := [] :: Γ.scopes }

def narrow (Γ : Context) (name : String) : Context :=
  { Γ with scopes := narrowScopes name Γ.scopes }

/-- Where a test for null, of a name by `==` or `!=`, has an outcome. -/
def narrowIf (Γ : Context) (test : Option (String × Bool)) (isNe : Bool) : Context :=
  match test with
  | some (name, ne) => if ne = isNe then Γ.narrow name else Γ
  | none => Γ

/-- At the start of a function. -/
def start (params : List TParam) (captured : String → Option Ty) (ret : Ty) : Context :=
  params.foldl (fun Γ p => Γ.declare p.name ⟨p.ty, p.mutable, false⟩) ⟨[[]], captured, ret⟩

end Context

/-! ## Operators -/

/-- The type of an arithmetic expression by the types of its operands, none of them `any`. -/
inductive ArithOp.Typed : ArithOp → Ty → Ty → Ty → Prop
  | int (op : ArithOp) : Typed op .int .int .int
  | float {op : ArithOp} (h : op.isShift = false) : Typed op .float .float .float
  | concat : Typed .add .string .string .string
  | copies : Typed .mul .string .int .string

/-- The type of a binary expression by the types of its operands. -/
def BinaryOp.Typed (leaves : Ty → Prop) (l r ty : Ty) : BinaryOp → Prop
  | .eq | .ne => ty = .bool
  | .order _ => ty = .bool ∧ (l = r ∧ (l = .int ∨ l = .float ∨ l = .string) ∨
    (l = .any ∨ r = .any) ∧ leaves .any)
  | .arith op => op.Typed l r ty ∨ (l = .any ∨ r = .any) ∧ ty = .any ∧ leaves .any

/-- Following fields by their indices from a value of this type leads to one of the last. -/
def PathTyped (g : Globals) : Ty → List Nat → Ty → Prop
  | ty, [], last => last = ty
  | ty, i :: path, last =>
    ∃ name sig field next, ty = .struct name ∧ g.structs.lookup name = some sig ∧
    sig.fields[i]? = some (field, next) ∧ PathTyped g next path last

/-- The values flow into places of these types, one into each. -/
def ExprsFlow : List TExpr → List Ty → Prop := List.Forall₂ fun e t => e.ty.Flows t

/-- The name compared with `null`, on either side. -/
def TExpr.ComparesNull (name : String) (isNe : Bool) (c : TExpr) : Prop := ∃ ty tn span sn s t,
  c = .mk (.binary (if isNe then .ne else .eq) (.mk (.binding name) ty s) (.mk .null tn sn))
  t span ∨
  c = .mk (.binary (if isNe then .ne else .eq) (.mk .null tn sn) (.mk (.binding name) ty s)) t span

/-- The condition tests for null what the test says, an immutable binding of this function. -/
def Tests (Γ : Context) (c : TExpr) (test : Option (String × Bool)) : Prop :=
  ∀ name isNe, test = some (name, isNe) →
    (∃ k inner, Γ.find? name = some k ∧ k.mutable = false ∧ k.ty = .nullable inner) ∧
    c.ComparesNull name isNe

/-! ## Trees -/

section

variable (g : Globals) (leaves : Ty → Prop)

mutual

def TExpr.Typed (Γ : Context) : TExpr → Prop
  | .mk kind ty _ => kind.Typed Γ ty

def TKind.Typed (Γ : Context) (ty : Ty) : TKind → Prop
  | .int _ => ty = .int
  | .float _ => ty = .float
  | .bool _ => ty = .bool
  | .string _ => ty = .string
  | .null => ty = .null
  | .binding name => Γ.type? name = some ty
  | .function name =>
    ∃ sig, g.functions.lookup name = some sig ∧ sig.isAsync = false ∧ ty = sig.toTy
  | .native name => ∃ sig, g.natives.lookup name = some sig ∧ ty = sig.toTy
  | .binary op left right => left.Typed Γ ∧ right.Typed Γ ∧ op.Typed leaves left.ty right.ty ty
  | .unary .not operand => operand.Typed Γ ∧ operand.ty = .bool ∧ ty = .bool
  | .unary .neg operand => operand.Typed Γ ∧ ty = operand.ty ∧
    (ty = .int ∨ ty = .float ∨ ty = .any ∧ leaves .any)
  | .logical _ left right =>
    left.Typed Γ ∧ right.Typed Γ ∧ left.ty = .bool ∧ right.ty = .bool ∧ ty = .bool
  | .call (.function name) args => ExprsTyped Γ args ∧ ∃ sig, g.functions.lookup name = some sig ∧
    sig.isAsync = false ∧ ExprsFlow args sig.params ∧ ty = sig.ret
  | .call (.method struct method) args =>
    ExprsTyped Γ args ∧ ∃ info sig, g.structs.lookup struct = some info ∧
    info.methods.lookup method = some sig ∧ ExprsFlow args (.struct struct :: sig.params) ∧
    ty = sig.ret
  | .call (.native name) args => ExprsTyped Γ args ∧ ∃ sig, g.natives.lookup name = some sig ∧
    ExprsFlow args sig.params ∧ ty = sig.ret
  | .callValue callee args => callee.Typed Γ ∧ ExprsTyped Γ args ∧ ∃ params,
    callee.ty = .function params ty ∧ ExprsFlow args params
  | .callDynamic callee args => callee.Typed Γ ∧ ExprsTyped Γ args ∧ callee.ty = .any ∧ ty = .any ∧
    leaves .any
  | .callMethodDynamic _ args => ExprsTyped Γ args ∧ ty = .any ∧ leaves .any
  | .field object _ (some i) => object.Typed Γ ∧ PathTyped g object.ty [i] ty
  | .field object _ none => object.Typed Γ ∧ object.ty = .any ∧ ty = .any ∧ leaves .any
  | .structInit name values => ExprsTyped Γ values ∧ ∃ sig, g.structs.lookup name = some sig ∧
    ExprsFlow values (sig.fields.map Prod.snd) ∧ ty = .struct name
  | .lambda params ret body _ => ty = .function (params.map TParam.ty) ret ∧
    (stmtsFall body = true → ret = .void) ∧ ∃ Γ', StmtsTyped (.start params Γ.type? ret) body Γ'
  | .spawn function args => ExprsTyped Γ args ∧ ∃ sig, g.functions.lookup function = some sig ∧
    sig.isAsync = true ∧ ExprsFlow args sig.params ∧ ty = .task sig.ret
  | .await task => task.Typed Γ ∧ task.ty = .task ty
  | .box inner => inner.Typed Γ ∧ ty = .any
  | .unbox inner => inner.Typed Γ ∧ inner.ty = .any ∧ leaves ty
  | .cast inner => inner.Typed Γ ∧ Check.isPrimitive ty = true ∧
    (ty = .string ∨ Check.isPrimitive inner.ty = true ∨ inner.ty = .any ∧ leaves .any)
  | .format parts => ExprsTyped Γ parts ∧ ty = .string

def ExprsTyped (Γ : Context) : List TExpr → Prop
  | [] => True
  | e :: rest => e.Typed Γ ∧ ExprsTyped Γ rest

/-- The statement stands where the first context holds, and those after it where the second one
does. -/
def TStmt.Typed (Γ : Context) : TStmt → Context → Prop
  | .declare name mutable ty none _, Γ' => Γ' = Γ.declare name ⟨ty, mutable, false⟩
  | .declare name mutable ty (some value) _, Γ' =>
    value.Typed Γ ∧ value.ty.Flows ty ∧ Γ' = Γ.declare name ⟨ty, mutable, false⟩
  | .assign target value _, Γ' => value.Typed Γ ∧ (∃ k last, Γ.find? target.name = some k ∧
    PathTyped g k.ty target.path last ∧ value.ty.Flows last) ∧ Γ' = Γ
  | .branch condition thenBlock elifs elseBlock _, Γ' => condition.Typed Γ ∧ condition.ty = .bool ∧
    ∃ test, Tests Γ condition test ∧
      (∃ Δ, StmtsTyped (Γ.narrowIf test true).opened thenBlock Δ) ∧
      ElifsTyped (Γ.narrowIf test false) elifs ∧ ElseTyped (Γ.narrowIf test false) elseBlock ∧
      (Γ' = Γ ∨ ∃ name isNe, test = some (name, isNe) ∧ elifs = [] ∧ Γ' = Γ.narrow name ∧
        (if isNe then elseBlock.isSome = true ∧ elseFalls elseBlock = false
          else stmtsFall thenBlock = false))
  | .loop condition body _, Γ' => condition.Typed Γ ∧ condition.ty = .bool ∧
    (∃ Δ, StmtsTyped Γ.opened body Δ) ∧ Γ' = Γ
  | .block body _, Γ' => (∃ Δ, StmtsTyped Γ.opened body Δ) ∧ Γ' = Γ
  | .ret none _, Γ' => Γ.ret = .void ∧ Γ' = Γ
  | .ret (some value) _, Γ' => value.Typed Γ ∧ value.ty.Flows Γ.ret ∧ Γ' = Γ
  | .eval value _, Γ' => value.Typed Γ ∧ Γ' = Γ
  | .breakLoop _, Γ' | .continueLoop _, Γ' | .free _ _, Γ' | .collect _, Γ'
  | .yieldNow _, Γ' => Γ' = Γ

def StmtsTyped (Γ : Context) : List TStmt → Context → Prop
  | [], Γ' => Γ' = Γ
  | s :: rest, Γ' => ∃ Δ, s.Typed Γ Δ ∧ StmtsTyped Δ rest Γ'

/-- Further branches; a test that fails in one of them says nothing in the next. -/
def ElifsTyped (Γ : Context) : List (TExpr × List TStmt) → Prop
  | [] => True
  | (condition, body) :: rest => condition.Typed Γ ∧ condition.ty = .bool ∧
    (∃ test Δ, Tests Γ condition test ∧ StmtsTyped (Γ.narrowIf test true).opened body Δ) ∧
    ElifsTyped Γ rest

def ElseTyped (Γ : Context) : Option (List TStmt) → Prop
  | none => True
  | some body => ∃ Δ, StmtsTyped Γ.opened body Δ

end

/-- What is compiled into a function of its own, where the names that it captures have these types.
-/
structure Body.Typed (captured : String → Option Ty) (b : Body) : Prop where
  stmts : ∃ Γ, StmtsTyped g leaves (.start b.params captured b.ret) b.stmts Γ
  falls : stmtsFall b.stmts = true → b.ret = .void

end

end ScopedScript
